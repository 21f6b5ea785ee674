import Stencil.Proofs.Skeleton.Conversion

/-!
# Comments on the template

`toPage` drops comments that describe the template. A search for them begins at an opener and reads
a word, so what it finds is settled before the next comment begins: where no such comment stands in
a text, the converted text has none either (`isAbsent_converted`), since a converted marker opens
with a keyword of pages. Hence a template that does not describe itself is only converted
(`toPage_eq_converted`).
-/

namespace Stencil

namespace Text

/-- A word that is read from a text ends before a glyph that no word holds. -/
theorem dropWord?_append_cons {word : List Char} {g : Glyph}
    (hg : ∀ letter ∈ word, g.isCaseOf letter = false) (t u : Text) :
    dropWord? word (t ++ g :: u) = (dropWord? word t).map (· ++ g :: u) := by
  induction word generalizing t with
  | nil => simp [dropWord?]
  | cons letter word ih =>
      cases t with
      | nil => simp [dropWord?, hg letter List.mem_cons_self]
      | cons a t =>
          simp only [List.cons_append, dropWord?]
          split
          · exact ih (fun l hl => hg l (List.mem_cons_of_mem _ hl)) t
          · rfl

theorem exists_splitAt? {mark : Text} {t u v : Text} (hne : mark ≠ []) (h : t = u ++ (mark ++ v)) :
    ∃ before rest, splitAt? mark t = some (before, rest) := by
  induction u generalizing t with
  | nil =>
      obtain ⟨g, mark, rfl⟩ := List.exists_cons_of_ne_nil hne
      subst h
      refine ⟨[], v, ?_⟩
      have hdrop : dropHead? (g :: mark) (g :: (mark ++ v)) = some v := dropHead?_eq_some_iff.mpr rfl
      simp only [List.nil_append, List.cons_append, splitAt?, hdrop]
  | cons a u ih =>
      subst h
      obtain ⟨before, rest, hrest⟩ := ih rfl
      rw [List.cons_append, splitAt?]
      split
      · exact ⟨_, _, rfl⟩
      · exact ⟨_, _, by rw [hrest]; rfl⟩

theorem infix_of_splitAt? {mark t : Text} (h : splitAt? mark t ≠ none) : mark <:+: t := by
  induction t with
  | nil =>
      rw [splitAt?] at h
      split at h
      · next hempty => rw [List.isEmpty_iff.mp hempty]
      · exact absurd rfl h
  | cons g t ih =>
      rw [splitAt?] at h
      split at h
      · next rest hrest =>
        rw [dropHead?_eq_some_iff.mp hrest]
        exact (List.prefix_append mark rest).isInfix
      · exact List.infix_cons (ih fun hnone => h (by rw [hnone]; rfl))

end Text

namespace Skeleton

open Marker

/-- What follows the keyword of a comment on the template, from behind the opener on. -/
def infoRest? (t : Text) : Option Text :=
  (Text.dropWord? "templateinfo".toList (Text.dropBlanks t)).bind fun rest =>
    if wordGoesOn rest then none else some rest

theorem infoHead?_eq (t : Text) : infoHead? t = (Text.dropHead? opener t).bind infoRest? := rfl

theorem infoForm_eq (before : Option Glyph) (t : Text) : infoForm before t =
    (infoHead? t).bind fun rest => (Text.splitAt? closer rest).map fun (_, after) => ((), after) := by
  rw [infoForm]
  cases infoHead? t with
  | none => rfl
  | some rest =>
      simp only [Option.bind_eq_bind, Option.bind_some]
      cases Text.splitAt? closer rest <;> rfl

theorem isBlind_infoForm : infoForm.IsBlind := fun _ _ _ => rfl

/-- A glyph at which the keyword of a comment on the template has ended. -/
def EndsInfo (g : Glyph) : Prop :=
  g.isBlank = false ∧ g.isWord = false ∧
    ("templateinfo".toList.all fun letter => !g.isCaseOf letter) = true

theorem endsInfo_start : EndsInfo (.char '<') := by
  refine ⟨by decide, by decide +kernel, by decide +kernel⟩

theorem endsInfo_hyphen : EndsInfo (.char '-') := by
  refine ⟨by decide, by decide +kernel, by decide +kernel⟩

theorem infoRest?_append_cons {g : Glyph} (hg : EndsInfo g) (t u : Text) :
    infoRest? (t ++ g :: u) = (infoRest? t).map (· ++ g :: u) := by
  have hletters : ∀ letter ∈ "templateinfo".toList, g.isCaseOf letter = false :=
    fun letter hmem => by simpa using List.all_eq_true.mp hg.2.2 letter hmem
  rw [infoRest?, infoRest?, Text.dropBlanks_append_cons hg.1, Text.dropWord?_append_cons hletters]
  cases Text.dropWord? "templateinfo".toList (Text.dropBlanks t) with
  | none => rfl
  | some rest =>
      have hgo : wordGoesOn (rest ++ g :: u) = wordGoesOn rest := by
        cases rest with
        | nil => exact hg.2.1
        | cons a rest => rfl
      simp only [Option.map_some, Option.bind_some, hgo]
      split <;> rfl

/-! ## Beside and at a comment -/

/-- Before a comment, what has been read of an opener and a keyword decides. -/
theorem infoForm_append_wrap {s : Text} (hs : s ≠ []) (body u : Text) :
    infoForm none (s ++ (wrap body ++ u)) = none ↔ infoHead? s = none := by
  have hhead : infoHead? (s ++ (wrap body ++ u)) =
      (infoHead? s).map (· ++ (wrap body ++ u)) := by
    obtain ⟨a, s, rfl⟩ := List.exists_cons_of_ne_nil hs
    have hwrap : wrap body ++ u = opener ++ (body ++ (closer ++ u)) := by simp [wrap]
    rw [infoHead?_eq, infoHead?_eq, hwrap, List.cons_append, dropHead?_append_opener]
    cases Text.dropHead? opener (a :: s) with
    | none => rfl
    | some rest => exact infoRest?_append_cons endsInfo_start rest _
  rw [infoForm_eq, hhead]
  cases infoHead? s with
  | none => simp
  | some rest =>
      have hcloser : rest ++ (wrap body ++ u) = (rest ++ (opener ++ body)) ++ (closer ++ u) := by
        simp [wrap]
      obtain ⟨before, after, hsplit⟩ := Text.exists_splitAt? (by decide) hcloser
      simp [hsplit]

/-- At a comment, its body decides. -/
theorem infoForm_wrap (body u : Text) :
    infoForm none (wrap body ++ u) = none ↔ infoRest? body = none := by
  have hhead : infoHead? (wrap body ++ u) = (infoRest? body).map (· ++ (closer ++ u)) := by
    rw [infoHead?_eq, Text.dropHead?_eq_some_iff.mpr (show wrap body ++ u = opener ++
      (body ++ (closer ++ u)) by simp [wrap]), Option.bind_some]
    exact infoRest?_append_cons endsInfo_hyphen body _
  rw [infoForm_eq, hhead]
  cases infoRest? body with
  | none => simp
  | some rest =>
      have hcloser : rest ++ (closer ++ u) = rest ++ (closer ++ u) := rfl
      obtain ⟨before, after, hsplit⟩ := Text.exists_splitAt? (by decide) hcloser
      simp [hsplit]

/-- Inside a comment no other one is begun. -/
theorem infoForm_inside {body s : Text} (h : IsBody body) (hs : s ≠ []) (hsuffix : s <:+ wrap body)
    (hne : s ≠ wrap body) (u : Text) : infoForm none (s ++ u) = none := by
  have hnot : opener.isPrefixOf (s ++ u) = false := by
    have hwrap : wrap body = .char '<' :: .char '!' :: .char '-' :: .char '-' ::
        (body ++ closer) := by simp [wrap, opener]
    rw [hwrap] at hsuffix hne
    simp only [List.suffix_cons_iff] at hsuffix
    rcases hsuffix with rfl | rfl | rfl | rfl | hsuffix
    · exact absurd rfl hne
    · rfl
    · rfl
    · rfl
    · exact h.not_opener hs hsuffix u
  rw [infoForm_eq, infoHead?_eq, Text.dropHead?_eq_none_iff.mpr hnot]
  rfl

/-- A body that opens with a keyword of pages is no comment on the template. -/
theorem infoRest?_of_firstWord? {body rest : Text} {kind : Kind} (hkind : kind ∈ templateKinds)
    (h : firstWord? body = some (kind.onPage.keyword, rest)) : infoRest? body = none := by
  have hletter : ∀ kind ∈ templateKinds,
      kind.onPage.keyword = .char 'I' :: kind.onPage.keyword.tail := by decide +kernel
  obtain ⟨gap, rfl, hgap, hword, -⟩ := firstWord?_eq_some_iff.mp h
  rw [infoRest?, hword.dropBlanks hgap, hletter kind hkind, List.cons_append]
  have hword : "templateinfo".toList = 't' :: "emplateinfo".toList := by decide +kernel
  rw [hword, Text.dropWord?, if_neg (by decide)]
  rfl

theorem infoRest?_suffix {t rest : Text} (h : infoRest? t = some rest) : rest <:+ t := by
  obtain ⟨rest', hword, hrest⟩ := Option.bind_eq_some_iff.mp h
  obtain ⟨read, hread, -⟩ := Text.dropWord?_eq_some_iff.mp hword
  obtain rfl : rest' = rest := by
    split at hrest
    · cases hrest
    · exact Option.some.inj hrest
  exact List.IsSuffix.trans ⟨read, hread.symm⟩ (List.dropWhile_suffix _)

/-- In a part of a text in which nothing is begun, nothing can be read. -/
theorem isAbsent_infoForm {u t v : Text} (h : ∀ s, s <:+ u ++ (t ++ v) → infoHead? s = none) :
    infoForm.IsAbsent t := by
  intro x _ hsuffix
  rw [infoForm_eq, Option.bind_eq_none_iff]
  intro rest hrest
  rw [Option.map_eq_none_iff]
  by_contra hsplit
  obtain ⟨inner, hinner, hread⟩ := Option.bind_eq_some_iff.mp (infoHead?_eq x ▸ hrest)
  obtain rfl := Text.dropHead?_eq_some_iff.mp hinner
  -- the closer begins with a glyph at which the keyword has ended, so what follows it is idle
  obtain ⟨read, tail, rfl⟩ := List.append_of_mem
    ((infoRest?_suffix hread).subset ((Text.infix_of_splitAt? hsplit).subset List.mem_cons_self))
  rw [infoRest?_append_cons endsInfo_hyphen] at hread
  have hwhole : opener ++ (read ++ .char '-' :: (tail ++ v)) <:+ u ++ (t ++ v) := by
    obtain ⟨w, rfl⟩ := hsuffix
    exact ⟨u ++ w, by simp⟩
  have hnone := h _ hwhole
  rw [infoHead?_eq, Text.dropHead?_eq_some_iff.mpr rfl, Option.bind_some,
    infoRest?_append_cons endsInfo_hyphen, Option.map_eq_none_iff] at hnone
  rw [hnone] at hread
  cases hread

/-! ## Conversions bring none in -/

theorem isAbsent_converted {params : List Param} (hvalues : AreQuiet params) (t : Text)
    (h : infoForm.IsAbsent t) : infoForm.IsAbsent (converted params t) := by
  induction t using commentInduction with
  | plain t ht => rwa [converted_eq_self params ht]
  | comment u body v hu hbody ih =>
      have hright : infoForm.IsAbsent v := fun x hx hsuffix =>
        h x hx (hsuffix.trans ((List.suffix_append (wrap body) v).trans
          (List.suffix_append u (wrap body ++ v))))
      rw [converted_insert params u hbody, converted_eq_self params hu]
      intro x hx hsuffix
      rcases Text.suffix_append_iff.mp hsuffix with hsuffix | ⟨s, hs, hsu, rfl⟩
      · rcases Text.suffix_append_iff.mp hsuffix with hsuffix | ⟨s, hs, hsw, rfl⟩
        · exact ih hright x hx hsuffix
        · by_cases hwhole : s = wrap (convertBody params body)
          · rw [hwhole, infoForm_wrap]
            rcases convertBody_cases params body with heq | ⟨kind, hkind, -, rest, hfirst⟩
            · rw [heq, ← infoForm_wrap body v]
              exact h _ (by simp [wrap, opener]) (List.suffix_append u (wrap body ++ v))
            · exact infoRest?_of_firstWord? hkind hfirst
          · exact infoForm_inside (isBody_convertBody hvalues hbody) hs hsw hwhole _
      · rw [infoForm_append_wrap hs, ← infoForm_append_wrap hs body v]
        refine h _ (by simp [hs]) ?_
        exact Text.suffix_append_iff.mpr (Or.inr ⟨s, hs, hsu, rfl⟩)

/-- A template that does not describe itself is only converted. -/
theorem toPage_eq_converted {params : List Param} (hvalues : AreQuiet params) {t : Text}
    (h : infoForm.findAll t = []) : toPage params t = converted params t :=
  Form.cutAll_eq_self isBlind_infoForm
    (isAbsent_converted hvalues t (Form.isAbsent_of_findAll_eq_nil isBlind_infoForm h))

end Skeleton

end Stencil
