import Mathlib.Data.List.Forall2
import Stencil.Proofs.Marker.Scanning
import Stencil.Proofs.Skeleton.Info

/-!
# Comments on the template dropped

A literal may hold comments that describe the template, and these are dropped from the page. That
may go wrong in two ways: a comment that is begun and not ended swallows what follows, and what
stood on both sides of a dropped one may make up a new comment. Neither happens in a text that
begins no comment outside of its comments, not even when these are taken out (`Closes`). Such a
text, or one without comments on the template, is converted part by part (`toPage_insert`), and its
markers are all that the page has from it (`filter_bodies_toPage`).
-/

namespace Stencil

namespace Marker

/-- What a text holds outside of its comments. -/
def outside (t : Text) : Text := commentForm.cutAll t

/-- Outside of its comments a text begins none. -/
def Closes (t : Text) : Prop := ¬ opener <:+: outside t

instance (t : Text) : Decidable (Closes t) := inferInstanceAs (Decidable (¬ _))

theorem isBlind_commentForm : commentForm.IsBlind := fun _ _ _ => rfl

theorem commentAt?_suffix_eq_none {t s : Text} (h : bodies t = []) (hne : s ≠ []) (hs : s <:+ t) :
    commentAt? s = none := by
  obtain ⟨x, rfl⟩ := hs
  obtain ⟨g, s, rfl⟩ := List.exists_cons_of_ne_nil hne
  rw [Option.eq_none_iff_forall_ne_some]
  intro body hbody
  have hmem : body ∈ bodies (x ++ g :: s) := mem_bodies_append_right (by
    rw [bodies_cons, hbody]
    exact List.mem_append_left _ (List.mem_singleton_self body))
  rw [h] at hmem
  cases hmem

theorem outside_of_plain {t : Text} (h : bodies t = []) : outside t = t :=
  Form.cutAll_eq_self isBlind_commentForm fun s hne hs => by
    rw [commentForm, commentAt?_suffix_eq_none h hne hs]
    rfl

theorem outside_plain_append {u body : Text} (hu : bodies u = []) (hbody : IsBody body) (v : Text) :
    outside (u ++ (wrap body ++ v)) = u ++ outside v := by
  have hat : commentAt? (wrap body ++ v) = some body := commentAt?_eq_some_iff.mpr ⟨hbody, v, rfl⟩
  have hread : commentForm none (wrap body ++ v) = some (body, v) := by
    rw [commentForm, hat, Option.map_some, List.drop_left]
  rw [outside, Form.cutAll_append isBlind_commentForm fun s hne hs => ?_,
    Form.cutAll_read isBlind_commentForm (by simp [wrap, opener]) hread, outside]
  obtain ⟨g, s, rfl⟩ := List.exists_cons_of_ne_nil hne
  have hwrap : wrap body ++ v = opener ++ (body ++ (closer ++ v)) := by simp [wrap]
  rw [commentForm, hwrap, List.cons_append, commentAt?_append_opener,
    commentAt?_suffix_eq_none hu hne hs]
  rfl

/-- A comment outside of which two texts stand is left out. -/
theorem outside_insert (t : Text) {body : Text} (h : IsBody body) (v : Text) :
    outside (t ++ (wrap body ++ v)) = outside t ++ outside v := by
  induction t using commentInduction with
  | plain t ht => rw [outside_plain_append ht h, outside_of_plain ht]
  | comment u body' w hu hbody' ih =>
      rw [List.append_assoc, List.append_assoc, outside_plain_append hu hbody', ih,
        outside_plain_append hu hbody', List.append_assoc]

theorem Closes.left {u v : Text} {body : Text} (h : Closes (u ++ (wrap body ++ v)))
    (hbody : IsBody body) : Closes u := by
  rw [Closes, outside_insert u hbody] at h
  exact fun hin => h (hin.trans (List.prefix_append _ _).isInfix)

theorem Closes.right {u v : Text} {body : Text} (h : Closes (u ++ (wrap body ++ v)))
    (hbody : IsBody body) : Closes v := by
  rw [Closes, outside_insert u hbody] at h
  exact fun hin => h (hin.trans (List.suffix_append _ _).isInfix)

theorem bodies_eq_nil_of_not_opener {t : Text} (h : ¬ opener <:+: t) : bodies t = [] := by
  rw [List.eq_nil_iff_forall_not_mem]
  intro body hbody
  obtain ⟨-, u, v, rfl⟩ := exists_text_of_mem_bodies hbody
  exact h ⟨u, body ++ (closer ++ v), by simp [wrap]⟩

/-- The first closer behind a body is the one that is put there. -/
theorem splitAt?_closer {body s : Text} (h : IsBody body) (hs : s <:+ body) (t : Text) :
    Text.splitAt? closer (s ++ (closer ++ t)) = some (s, t) := by
  induction body generalizing s with
  | nil =>
      rw [List.suffix_nil.mp hs]
      rfl
  | cons g body ih =>
      rcases List.suffix_cons_iff.mp hs with rfl | hs
      · have hnot : Text.dropHead? closer (g :: (body ++ (closer ++ t))) = none := by
          rw [Text.dropHead?_eq_none_iff, Bool.eq_false_iff]
          intro hprefix
          have hlength : closer.length ≤ (g :: (body ++ closer)).length := by simp [closer]
          have hin : g :: (body ++ (closer ++ t)) = (g :: (body ++ closer)) ++ t := by simp
          rw [hin, Text.isPrefixOf_append_of_length_le t hlength] at hprefix
          rw [IsBody, List.cons_append, bodyBefore?, if_pos hprefix] at h
          cases h
        rw [List.cons_append, Text.splitAt?, hnot]
        dsimp only
        rw [ih h.of_cons.1 (List.suffix_refl _)]
        rfl
      · exact ih h.of_cons.1 hs

end Marker

namespace Skeleton

open Marker

/-- A literal from which the comments on the template can be dropped: it has none, or it begins no
comment that is not ended, not even when its comments are taken out. -/
def IsDroppable (t : Text) : Prop := infoForm.findAll t = [] ∨ Closes t

instance (t : Text) : Decidable (IsDroppable t) := inferInstanceAs (Decidable (_ ∨ _))

variable {params : List Param}

/-- A marker is no comment on the template: the ninth letter of its keyword is another. -/
theorem infoRest?_of_kind? {body : Text} {kind : Kind} (h : kind? body = some kind) :
    infoRest? body = none := by
  obtain ⟨word, rest, hfirst, hof⟩ := exists_firstWord?_of_kind? h
  obtain ⟨gap, rfl, hgap, hword, -⟩ := firstWord?_eq_some_iff.mp hfirst
  rw [infoRest?, hword.dropBlanks hgap, Option.bind_eq_none_iff]
  intro rest' hrest'
  obtain ⟨read, heq, hread⟩ := Text.dropWord?_eq_some_iff.mp hrest'
  have hninth : ∀ kind : Kind, ∃ g ∈ [Glyph.char 'b', .char 'e', .char 'p'],
      (kind.keyword.map Glyph.asciiLower)[8]? = some g := by
    rintro (side | side | side | _ | _) <;> (try cases side) <;> decide +kernel
  obtain ⟨small, hsmall, hkeyword⟩ := hninth kind
  have hsame : word.map Glyph.asciiLower = kind.keyword.map Glyph.asciiLower := by
    simpa using List.find?_some hof
  rw [← hsame, List.getElem?_map, Option.map_eq_some_iff] at hkeyword
  obtain ⟨g, hg, rfl⟩ := hkeyword
  have hlength : read.length = 12 := by
    rw [← hread.length_eq]
    decide
  have hgRead : read[8]? = some g := by
    have hword8 : (word ++ rest)[8]? = some g :=
      (List.getElem?_append_left (List.getElem?_eq_some_iff.mp hg).1).trans hg
    rwa [heq, List.getElem?_append_left (by omega)] at hword8
  have hcase : g.isCaseOf 'i' = true := by
    obtain ⟨hlt, hget⟩ := List.getElem?_eq_some_iff.mp hgRead
    have := List.forall₂_iff_get.mp hread
    have hi := this.2 8 (by decide) hlt
    rwa [List.get_eq_getElem, List.get_eq_getElem, hget] at hi
  have hletter := hword.letters g (List.mem_of_getElem? hg)
  simp only [Glyph.isCaseOf, Bool.or_eq_true, Bool.and_eq_true, beq_iff_eq] at hcase
  rcases hcase with ((hi | ⟨-, rfl | rfl⟩) | ⟨hfalse, -⟩) | ⟨hfalse, -⟩
  · rw [hi] at hsmall
    exact absurd hsmall (by decide)
  · exact absurd hletter (by decide)
  · exact absurd hletter (by decide)
  · exact absurd hfalse (by decide)
  · exact absurd hfalse (by decide)

theorem infoRest?_convertBody {body : Text} (h : infoRest? body = none) :
    infoRest? (convertBody params body) = none := by
  rcases convertBody_cases params body with heq | ⟨kind, hkind, -, rest, hfirst⟩
  · rw [heq, h]
  · exact infoRest?_of_firstWord? hkind hfirst

theorem convertBody_of_info {body : Text} (h : infoRest? body ≠ none) :
    convertBody params body = body := by
  rcases convertBody_cases params body with heq | ⟨kind, -, hkind, -⟩
  · exact heq
  · exact absurd (infoRest?_of_kind? hkind) h

/-- What is left of a comment. -/
def leftOf (params : List Param) (body : Text) : Text :=
  if infoRest? body = none then wrap (convertBody params body) else []

theorem cutAll_comment (hvalues : AreQuiet params) {body : Text} (hbody : IsBody body) (t : Text) :
    infoForm.cutAll (wrap (convertBody params body) ++ t) =
      leftOf params body ++ infoForm.cutAll t := by
  have hbody' := isBody_convertBody hvalues hbody
  rw [leftOf]
  split
  · next hinfo =>
    refine Form.cutAll_append isBlind_infoForm fun s hne hs => ?_
    by_cases hwhole : s = wrap (convertBody params body)
    · rw [hwhole, infoForm_wrap]
      exact infoRest?_convertBody hinfo
    · exact infoForm_inside hbody' hne hs hwhole t
  · next hinfo =>
    obtain ⟨rest, hrest⟩ := Option.ne_none_iff_exists'.mp hinfo
    have hread : infoForm none (wrap body ++ t) = some ((), t) := by
      have hhead : infoHead? (wrap body ++ t) = some (rest ++ (closer ++ t)) := by
        rw [infoHead?_eq, Text.dropHead?_eq_some_iff.mpr (show wrap body ++ t = opener ++
          (body ++ (closer ++ t)) by simp [wrap]), Option.bind_some]
        have hclosed := infoRest?_append_cons endsInfo_hyphen body
          ([.char '-', .char '>'] ++ t)
        rw [hrest] at hclosed
        exact hclosed
      rw [infoForm_eq, hhead, Option.bind_some, splitAt?_closer hbody (infoRest?_suffix hrest)]
      rfl
    rw [convertBody_of_info hinfo, Form.cutAll_read isBlind_infoForm (by simp [wrap, opener]) hread,
      List.nil_append]

theorem infoForm_of_not_opener {s t : Text} (hne : s ≠ []) (h : ¬ opener <:+: s) (body : Text) :
    infoForm none (s ++ (wrap body ++ t)) = none := by
  rw [infoForm_append_wrap hne, infoHead?_eq, Option.bind_eq_none_iff]
  intro rest hrest
  rw [Text.dropHead?_eq_some_iff] at hrest
  exact absurd (hrest ▸ (List.prefix_append opener rest).isInfix) h

theorem toPage_of_not_opener {t : Text} (h : ¬ opener <:+: t) : toPage params t = t := by
  rw [toPage, show convertFrom params t 0 (scan t) = converted params t from rfl,
    converted_eq_self params (bodies_eq_nil_of_not_opener h)]
  refine Form.cutAll_eq_self isBlind_infoForm fun s hne hs => ?_
  rw [infoForm_eq, infoHead?_eq]
  cases hhead : Text.dropHead? opener s with
  | none => rfl
  | some rest =>
      rw [Text.dropHead?_eq_some_iff] at hhead
      exact absurd ((hhead ▸ (List.prefix_append opener rest).isInfix).trans hs.isInfix) h

/-- Behind a text that begins no comment, a comment and what follows it. -/
theorem toPage_plain_append (hvalues : AreQuiet params) {u body : Text} (hu : ¬ opener <:+: u)
    (hbody : IsBody body) (v : Text) : toPage params (u ++ (wrap body ++ v)) =
      u ++ (leftOf params body ++ toPage params v) := by
  have hconverted := converted_insert params u hbody v
  rw [converted_eq_self params (bodies_eq_nil_of_not_opener hu)] at hconverted
  rw [toPage, show convertFrom params _ 0 _ = converted params (u ++ (wrap body ++ v)) from rfl,
    hconverted, Form.cutAll_append isBlind_infoForm fun s hne hs =>
      infoForm_of_not_opener hne (fun hin => hu (hin.trans hs.isInfix)) _,
    cutAll_comment hvalues hbody]
  rfl

theorem toPage_insert_of_closes (hvalues : AreQuiet params) {u v body : Text}
    (h : Closes (u ++ (wrap body ++ v))) (hbody : IsBody body) :
    toPage params (u ++ (wrap body ++ v)) =
      toPage params u ++ (leftOf params body ++ toPage params v) := by
  induction u using commentInduction with
  | plain u hu =>
      have hnot : ¬ opener <:+: u := by
        have := h.left hbody
        rwa [Closes, outside_of_plain hu] at this
      rw [toPage_plain_append hvalues hnot hbody, toPage_of_not_opener hnot]
  | comment u body' w hu hbody' ih =>
      rw [List.append_assoc, List.append_assoc] at h ⊢
      have hnot : ¬ opener <:+: u := by
        have := h.left hbody'
        rwa [Closes, outside_of_plain hu] at this
      rw [toPage_plain_append hvalues hnot hbody', ih (h.right hbody'),
        toPage_plain_append hvalues hnot hbody']
      simp only [List.append_assoc]

/-- What stands on both sides of a marker is written as page text by itself. -/
theorem toPage_insert (hvalues : AreQuiet params) {u v body : Text}
    (h : IsDroppable (u ++ (wrap body ++ v))) (hbody : IsBody body)
    (hinfo : infoRest? body = none) :
    IsDroppable u ∧ IsDroppable v ∧ toPage params (u ++ (wrap body ++ v)) =
      toPage params u ++ (wrap (convertBody params body) ++ toPage params v) := by
  rcases h with hnone | hcloses
  · have habsent := Form.isAbsent_of_findAll_eq_nil isBlind_infoForm hnone
    have hleft : infoForm.findAll u = [] := by
      refine Form.findFrom_of_isAbsent isBlind_infoForm (fun s hne hs => ?_) 0 none
      have hread := habsent (s ++ (wrap body ++ v)) (by simp [hne])
        (Text.suffix_append_iff.mpr (Or.inr ⟨s, hne, hs, rfl⟩))
      rw [infoForm_append_wrap hne] at hread
      rw [infoForm_eq, hread]
      rfl
    have hright : infoForm.findAll v = [] :=
      Form.findFrom_of_isAbsent isBlind_infoForm (fun s hne hs => habsent s hne
        (hs.trans ((List.suffix_append (wrap body) v).trans (List.suffix_append u _)))) 0 none
    refine ⟨Or.inl hleft, Or.inl hright, ?_⟩
    rw [toPage_eq_converted hvalues hnone, toPage_eq_converted hvalues hleft,
      toPage_eq_converted hvalues hright, converted_insert params u hbody]
  · refine ⟨Or.inr (hcloses.left hbody), Or.inr (hcloses.right hbody), ?_⟩
    rw [toPage_insert_of_closes hvalues hcloses hbody, leftOf, if_pos hinfo]

/-- What is dropped from between two texts does not make them begin a comment. -/
theorem bodies_toPage_of_closes (hvalues : AreQuiet params) (t : Text) :
    ∀ p : Text, ¬ opener <:+: p ++ outside t → bodies (p ++ toPage params t) =
      ((bodies t).filter fun body => infoRest? body = none).map (convertBody params) := by
  induction t using commentInduction with
  | plain t ht =>
      intro p hp
      rw [outside_of_plain ht] at hp
      have hnot : ¬ opener <:+: t := fun hin => hp (hin.trans (List.suffix_append p t).isInfix)
      rw [toPage_of_not_opener hnot, bodies_eq_nil_of_not_opener hp, ht]
      rfl
  | comment u body v hu hbody ih =>
      intro p hp
      rw [outside_plain_append hu hbody, ← List.append_assoc] at hp
      have hbefore : ¬ opener <:+: p ++ u := fun hin =>
        hp (hin.trans (List.prefix_append _ _).isInfix)
      have hnot : ¬ opener <:+: u := fun hin =>
        hbefore (hin.trans (List.suffix_append p u).isInfix)
      rw [toPage_plain_append hvalues hnot hbody, bodies_insert u hbody, hu, List.nil_append,
        ← List.append_assoc p, leftOf]
      split
      · next hinfo =>
        have hrest := ih [] fun hin => hp (hin.trans (List.suffix_append _ _).isInfix)
        rw [List.nil_append] at hrest
        rw [bodies_insert _ (isBody_convertBody hvalues hbody), bodies_eq_nil_of_not_opener hbefore,
          hrest, List.filter_cons_of_pos (by simpa using hinfo)]
        rfl
      · next hinfo =>
        rw [List.nil_append, ih _ hp, List.filter_cons_of_neg (by simpa using hinfo)]

/-- The markers that a literal leaves to the page are its own, converted. -/
theorem filter_bodies_toPage (hvalues : AreQuiet params) {t : Text} (h : IsDroppable t)
    {p : Text → Bool} (hp : ∀ body, p body = true → ∃ kind, kind? body = some kind) :
    (bodies (toPage params t)).filter p = ((bodies t).map (convertBody params)).filter p := by
  rcases h with hnone | hcloses
  · rw [toPage_eq_converted hvalues hnone, bodies_converted hvalues]
  · have hbodies := bodies_toPage_of_closes hvalues t [] hcloses
    rw [List.nil_append] at hbodies
    rw [hbodies, List.filter_map, List.filter_map, List.filter_filter]
    refine congrArg _ (List.filter_congr fun body _ => ?_)
    by_cases hbody : p (convertBody params body) = true
    · obtain ⟨kind, hkind⟩ := hp _ hbody
      have hinfo : infoRest? body = none := by
        by_contra hinfo
        rw [convertBody_of_info hinfo] at hkind
        exact hinfo (infoRest?_of_kind? hkind)
      simp [hbody, hinfo]
    · simp [Bool.not_eq_true _ ▸ hbody]

end Skeleton

end Stencil
