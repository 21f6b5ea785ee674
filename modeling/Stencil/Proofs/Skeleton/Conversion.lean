import Stencil.Proofs.Skeleton.Values

/-!
# Converting template text comment by comment

`toPage` works on tokens and offsets. Here it is brought to a form that goes through texts joined
from parts: `converted` exchanges the body of each comment (`convertBody`) and leaves all else, so

- the comments of the converted text are the converted comments (`bodies_converted`), and where a
  comment stands between two texts they are converted by themselves (`converted_insert`);
- kinds move to the page's side and names stay (`kind?_convertBody`, `nameOf_convertBody`);
- a text in which no comment describes the template is only converted (`toPage_eq_converted`),
  since no conversion brings in such a comment.
-/

namespace Stencil

namespace Skeleton

open Marker

/-- What a comment of template text says in page text. -/
def convertBody (params : List Param) (body : Text) : Text :=
  match kind? body with
  | some (.regionBegin .template) => rename (Kind.regionBegin .page).keyword body
  | some (.regionEnd .template) => rename (Kind.regionEnd .page).keyword body
  | some (.param .template) =>
    match param? params (nameOf body) with
    | some param => withValue (rename (Kind.param .page).keyword body) param.value
    | none => rename (Kind.param .page).keyword body
  | _ => body

/-- The text with its markers converted, before comments on the template are dropped. -/
def converted (params : List Param) (t : Text) : Text := convertFrom params t 0 (scan t)

/-- Parameters whose values can be written into comments. -/
def AreValues (params : List Param) : Prop := ∀ param ∈ params, IsBare param.value

instance (params : List Param) : Decidable (AreValues params) :=
  inferInstanceAs (Decidable (∀ param ∈ params, IsBare param.value))

/-- Parameters whose values hold no delimiter of comments. -/
def AreQuiet (params : List Param) : Prop := ∀ param ∈ params, isQuiet param.value = true

theorem AreValues.areQuiet {params : List Param} (h : AreValues params) : AreQuiet params :=
  fun param hparam => (h param hparam).isQuiet

theorem mem_of_param? {params : List Param} {name : Text} {param : Param}
    (h : param? params name = some param) : param ∈ params ∧ param.name = name := by
  obtain ⟨hmem, hname⟩ := List.mem_filter.mp (List.mem_of_getLast? h)
  exact ⟨hmem, of_decide_eq_true hname⟩

/-! ## One comment -/

/-- The first word of a body leaves only one kind open. -/
theorem kind?_eq_of_firstWord? {body word rest : Text} {kind kind' : Kind}
    (h : firstWord? body = some (word, rest)) (hof : Kind.ofKeyword? word = some kind)
    (hkind : kind? body = some kind') : kind' = kind := by
  obtain ⟨word', rest', h', hof'⟩ := exists_firstWord?_of_kind? hkind
  rw [h] at h'
  obtain ⟨rfl, rfl⟩ := Prod.mk.inj (Option.some.inj h')
  exact Option.some.inj (hof'.symm.trans hof)

theorem withKeyword_wrap {body word rest : Text} (h : firstWord? body = some (word, rest))
    (keyword : Text) : withKeyword (wrap body) keyword = wrap (rename keyword body) := by
  obtain ⟨gap, rfl, hgap, hword, hrest⟩ := firstWord?_eq_some_iff.mp h
  have hinner : (wrap (gap ++ (word ++ rest))).drop opener.length =
      gap ++ (word ++ (rest ++ closer)) := by
    simp [wrap, opener]
  have hstop : ∀ g, (rest ++ closer).head? = some g → g.isLetter = false := by
    intro g hg
    cases rest with
    | nil =>
        cases hg
        decide
    | cons a rest => exact hrest.not_isLetter hg
  rw [withKeyword, hinner, rename_eq hgap hword hrest, hword.takeWhile_isBlank hgap,
    hword.dropBlanks hgap, hword.dropWhile_isLetter hstop, wrap]
  simp only [List.append_assoc]

theorem convert_eq_wrap {starts : List Nat} {c : Comment} {token : Token}
    (h : tokenOf? starts c = some token) (params : List Param) :
    convert params token = wrap (convertBody params c.body) := by
  obtain ⟨hkind, hname, -, -, hraw⟩ := tokenOf?_eq_some h
  obtain ⟨word, rest, hfirst, -⟩ := exists_firstWord?_of_kind? hkind
  rw [convert, convertBody, hkind, hraw, hname]
  rcases hk : token.kind with (_ | _) | (_ | _) | (_ | _) | _ | _
  all_goals
    first
      | rfl
      | exact withKeyword_wrap hfirst _
      | (simp only [Kind.onPage]
         rw [withKeyword_wrap hfirst]
         cases param? params token.name with
         | none => rfl
         | some param => exact withValue_wrap _ _)

/-- The kinds of the markers that are converted. -/
def templateKinds : List Kind := [.regionBegin .template, .regionEnd .template, .param .template]

/-- What a conversion makes of a body: the same, or one that opens with the keyword of pages for its
kind. -/
theorem convertBody_cases (params : List Param) (body : Text) :
    convertBody params body = body ∨ ∃ kind ∈ templateKinds, kind? body = some kind ∧
      ∃ rest, firstWord? (convertBody params body) = some (kind.onPage.keyword, rest) := by
  rw [convertBody]
  split
  · next hkind =>
    obtain ⟨word, rest, hfirst, -⟩ := exists_firstWord?_of_kind? hkind
    exact Or.inr ⟨_, by decide, hkind, rest, firstWord?_rename hfirst _⟩
  · next hkind =>
    obtain ⟨word, rest, hfirst, -⟩ := exists_firstWord?_of_kind? hkind
    exact Or.inr ⟨_, by decide, hkind, rest, firstWord?_rename hfirst _⟩
  · next hkind =>
    obtain ⟨word, rest, hfirst, -⟩ := exists_firstWord?_of_kind? hkind
    have hrenamed := firstWord?_rename hfirst (.param .page)
    refine Or.inr ⟨_, by decide, hkind, ?_⟩
    split
    · exact firstWord?_withValue hrenamed _
    · exact ⟨rest, hrenamed⟩
  · exact Or.inl rfl

theorem isBody_convertBody {params : List Param} (hvalues : AreQuiet params) {body : Text}
    (h : IsBody body) : IsBody (convertBody params body) := by
  rw [convertBody]
  split
  · next hkind =>
    obtain ⟨word, rest, hfirst, -⟩ := exists_firstWord?_of_kind? hkind
    exact (isBody_rename_iff hfirst _).mpr h
  · next hkind =>
    obtain ⟨word, rest, hfirst, -⟩ := exists_firstWord?_of_kind? hkind
    exact (isBody_rename_iff hfirst _).mpr h
  · next hkind =>
    obtain ⟨word, rest, hfirst, -⟩ := exists_firstWord?_of_kind? hkind
    have hrenamed := (isBody_rename_iff hfirst (.param .page)).mpr h
    split
    · next hparam => exact isBody_withValue hrenamed (hvalues _ (mem_of_param? hparam).1)
    · exact hrenamed
  · exact h

/-- A comment without angle brackets is given none, if its value has none. -/
theorem isBare_convertBody_of_value {params : List Param} {body : Text}
    (hvalue : ∀ param, param? params (nameOf body) = some param → IsBare param.value)
    (h : IsBare body) : IsBare (convertBody params body) := by
  have hrenamed : ∀ kind : Kind, IsBare (rename kind.keyword body) := fun kind =>
    isBare_rename kind.isWord_keyword.isBare h
  rw [convertBody]
  split
  · exact hrenamed _
  · exact hrenamed _
  · split
    · next hparam => exact isBare_withValue (hrenamed _) (hvalue _ hparam)
    · exact hrenamed _
  · exact h

theorem isBare_convertBody {params : List Param} (hvalues : AreValues params) {body : Text}
    (h : IsBare body) : IsBare (convertBody params body) :=
  isBare_convertBody_of_value (fun _ hparam => hvalues _ (mem_of_param? hparam).1) h

/-- A region marker moves to the page's side under its name. -/
theorem convertBody_region {body : Text} {kind : Kind} (h : kind? body = some kind)
    (hkind : kind = .regionBegin .template ∨ kind = .regionEnd .template) (params : List Param) :
    kind? (convertBody params body) = some kind.onPage ∧
      nameOf (convertBody params body) = nameOf body := by
  obtain ⟨attributes, hclass⟩ := kind?_eq_some_iff.mp h
  have hconverted : convertBody params body = rename kind.onPage.keyword body := by
    rcases hkind with rfl | rfl <;> rw [convertBody, h] <;> rfl
  have hclass' : classify (rename kind.onPage.keyword body) = some (kind.onPage, attributes) :=
    classify_rename hclass (by rcases hkind with rfl | rfl <;> rfl)
      (by rcases hkind with rfl | rfl <;> simp [Kind.onPage])
  rw [hconverted]
  refine ⟨kind?_eq_some_iff.mpr ⟨attributes, hclass'⟩, ?_⟩
  rw [nameOf, nameOf, hclass', hclass]
  rcases hkind with rfl | rfl <;> rfl

/-- Besides regions only parameters change, and they become parameters or say nothing. -/
theorem kind?_convertBody {params : List Param} {body : Text} {kind : Kind}
    (h : kind? (convertBody params body) = some kind) :
    kind? body = some kind ∨ kind = .param .page ∨
      kind = .regionBegin .page ∧ kind? body = some (.regionBegin .template) ∨
      kind = .regionEnd .page ∧ kind? body = some (.regionEnd .template) := by
  rcases convertBody_cases params body with heq | ⟨kind', hmem, hkind, rest, hfirst⟩
  · exact Or.inl (heq ▸ h)
  · have honPage := kind?_eq_of_firstWord? hfirst (Kind.ofKeyword?_keyword _) h
    simp only [templateKinds, List.mem_cons, List.not_mem_nil, or_false] at hmem
    rcases hmem with rfl | rfl | rfl
    · exact Or.inr (Or.inr (Or.inl ⟨honPage, hkind⟩))
    · exact Or.inr (Or.inr (Or.inr ⟨honPage, hkind⟩))
    · exact Or.inr (Or.inl honPage)

/-- Parameters of pages come from parameters. -/
theorem kind?_of_convertBody_param {params : List Param} {body : Text}
    (h : kind? (convertBody params body) = some (.param .page)) :
    kind? body = some (.param .template) ∨ kind? body = some (.param .page) := by
  rcases convertBody_cases params body with heq | ⟨kind', hmem, hkind, rest, hfirst⟩
  · exact Or.inr (heq ▸ h)
  · have honPage := kind?_eq_of_firstWord? hfirst (Kind.ofKeyword?_keyword _) h
    simp only [templateKinds, List.mem_cons, List.not_mem_nil, or_false] at hmem
    rcases hmem with rfl | rfl | rfl
    · cases honPage
    · cases honPage
    · exact Or.inl hkind

/-- Only for parameters does it matter what the page gives. -/
theorem convertBody_congr {body : Text} (h : kind? body ≠ some (.param .template))
    (params params' : List Param) : convertBody params body = convertBody params' body := by
  rw [convertBody, convertBody]
  split
  · rfl
  · rfl
  · next hkind => exact absurd hkind h
  · rfl

/-! ## All comments of a text -/

/-- One comment of the conversion. A stretch that has been passed is copied, and what stands
behind the comment is converted to `w` wherever it stands. -/
theorem convertFrom_comment (params : List Param) {u body v w : Text} (hu : bodies u = [])
    (hbody : IsBody body)
    (hv : ∀ (starts : List Nat) (pre stretch : Text),
      convertFrom params (pre ++ (stretch ++ v)) pre.length
        (tokensFrom starts (pre.length + stretch.length) v) = stretch ++ w)
    (starts : List Nat) (pre stretch : Text) :
    convertFrom params (pre ++ (stretch ++ (u ++ (wrap body ++ v)))) pre.length
        (tokensFrom starts (pre.length + stretch.length) (u ++ (wrap body ++ v))) =
      stretch ++ (u ++ (wrap (convertBody params body) ++ w)) := by
  rw [tokensFrom_insert _ _ _ hbody, tokensFrom_eq_nil hu, List.nil_append]
  cases htoken : tokenOf? starts ⟨pre.length + stretch.length + u.length, body⟩ with
  | none =>
      have hkind : kind? body = none := by
        rw [kind?, Option.map_eq_none_iff]
        exact Option.map_eq_none_iff.mp htoken
      have hkeep : convertBody params body = body := by rw [convertBody, hkind]
      have hnext := hv starts pre (stretch ++ (u ++ wrap body))
      rw [show pre.length + (stretch ++ (u ++ wrap body)).length =
        pre.length + stretch.length + u.length + (wrap body).length by
        simp only [List.length_append]; omega] at hnext
      rw [hkeep]
      simpa only [Option.toList_none, List.nil_append, List.append_assoc] using hnext
  | some token =>
      obtain ⟨-, -, hstart, hstop, -⟩ := tokenOf?_eq_some htoken
      rw [Comment.stop_eq] at hstop
      dsimp only at hstart hstop
      have hslice := Text.slice_append pre (stretch ++ u) (wrap body ++ v)
      rw [show pre.length + (stretch ++ u).length = token.start by
        rw [hstart, List.length_append]; omega] at hslice
      have hnext := hv starts (pre ++ (stretch ++ (u ++ wrap body))) []
      rw [show (pre ++ (stretch ++ (u ++ wrap body))).length = token.stop by
        simp only [List.length_append]; omega] at hnext
      simp only [List.append_assoc, List.nil_append, List.length_nil, Nat.add_zero] at hslice hnext
      rw [Option.toList_some, List.singleton_append, convertFrom, hslice,
        convert_eq_wrap htoken, ← hstop, hnext]
      simp only [List.append_assoc]

/-- What has been passed does not matter to what follows. -/
theorem convertFrom_stretch (params : List Param) (t : Text) :
    ∀ (starts : List Nat) (pre stretch : Text),
      convertFrom params (pre ++ (stretch ++ t)) pre.length
          (tokensFrom starts (pre.length + stretch.length) t) = stretch ++ converted params t := by
  suffices hsome : ∃ w, ∀ (starts : List Nat) (pre stretch : Text),
      convertFrom params (pre ++ (stretch ++ t)) pre.length
        (tokensFrom starts (pre.length + stretch.length) t) = stretch ++ w by
    obtain ⟨w, hw⟩ := hsome
    have heq : converted params t = w := hw (Position.lineStarts t) [] []
    rw [heq]
    exact hw
  induction t using commentInduction with
  | plain t ht =>
      refine ⟨t, fun starts pre stretch => ?_⟩
      rw [tokensFrom_eq_nil ht, convertFrom, List.drop_left]
  | comment u body v hu hbody ih =>
      obtain ⟨w, hw⟩ := ih
      exact ⟨_, convertFrom_comment params hu hbody hw⟩

theorem converted_eq_self (params : List Param) {t : Text} (h : bodies t = []) :
    converted params t = t := by
  rw [converted, scan_eq_tokensFrom, tokensFrom_eq_nil h]
  rfl

/-- The texts on both sides of a comment are converted by themselves. -/
theorem converted_insert (params : List Param) (t : Text) {body : Text} (h : IsBody body)
    (u : Text) : converted params (t ++ (wrap body ++ u)) =
      converted params t ++ (wrap (convertBody params body) ++ converted params u) := by
  have hplain : ∀ {t body u : Text}, bodies t = [] → IsBody body →
      converted params (t ++ (wrap body ++ u)) =
        t ++ (wrap (convertBody params body) ++ converted params u) := fun ht hbody =>
    convertFrom_comment params ht hbody (convertFrom_stretch params _) _ [] []
  induction t using commentInduction with
  | plain t ht => rw [hplain ht h, converted_eq_self params ht]
  | comment t' body' v ht' hbody' ih =>
      rw [List.append_assoc, List.append_assoc, hplain ht' hbody', hplain ht' hbody', ih]
      simp only [List.append_assoc]

theorem converted_congr {params params' : List Param} {t : Text}
    (h : ∀ body ∈ bodies t, convertBody params body = convertBody params' body) :
    converted params t = converted params' t := by
  induction t using commentInduction with
  | plain t ht => rw [converted_eq_self params ht, converted_eq_self params' ht]
  | comment u body v hu hbody ih =>
      rw [bodies_insert _ hbody] at h
      rw [converted_insert params u hbody, converted_insert params' u hbody,
        converted_eq_self params hu, converted_eq_self params' hu, h body (by simp),
        ih fun b hb => h b (by simp [hb])]

theorem converted_eq_nil_iff (params : List Param) {t : Text} :
    converted params t = [] ↔ t = [] := by
  induction t using commentInduction with
  | plain t ht => rw [converted_eq_self params ht]
  | comment u body v hu hbody ih =>
      rw [converted_insert params u hbody]
      simp [wrap, opener]

/-- The comments of a converted text are the converted comments. -/
theorem bodies_converted {params : List Param} (hvalues : AreQuiet params) (t : Text) :
    bodies (converted params t) = (bodies t).map (convertBody params) := by
  induction t using commentInduction with
  | plain t ht => rw [converted_eq_self params ht, ht, List.map_nil]
  | comment u body v hu hbody ih =>
      rw [converted_insert params u hbody, converted_eq_self params hu, bodies_insert _ hbody,
        bodies_insert _ (isBody_convertBody hvalues hbody), ih, hu]
      rfl

theorem silent_converted {params : List Param} (hvalues : AreQuiet params) {Q Q' : Text → Prop}
    (himp : ∀ body, Q (convertBody params body) → Q' body) {t : Text} (h : Silent Q' t) :
    Silent Q (converted params t) := by
  intro body hb hQ
  rw [bodies_converted hvalues] at hb
  obtain ⟨body', hb', rfl⟩ := List.mem_map.mp hb
  exact h body' hb' (himp body' hQ)

end Skeleton

end Stencil
