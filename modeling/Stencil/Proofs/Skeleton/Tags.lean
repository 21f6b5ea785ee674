import Stencil.Proofs.Document.Filling
import Stencil.Proofs.Skeleton.Conversion
import Stencil.Proofs.Tag.Cuts

/-!
# Tags in converted text

A conversion changes nothing outside marker comments, and where these hold no angle brackets no tag
lies inside one. So the tags of the converted text are those of the text, at the places where the
text in front of them has come to end (`findAll_converted`), and a text that is cut beside a tag is
converted part by part (`converted_append_of_end`, `converted_append_of_closing`).
-/

namespace Stencil

namespace Marker

/-- A marker that holds an angle bracket besides those of its delimiters. -/
def IsRough (body : Text) : Prop := kind? body ≠ none ∧ ¬ IsBare body

end Marker

namespace Skeleton

open Marker

theorem convertBody_of_kind?_eq_none {body : Text} (h : kind? body = none) (params : List Param) :
    convertBody params body = body := by
  rw [convertBody, h]

/-- The text stays if its comments do. -/
theorem converted_of_fixed {params : List Param} {t : Text}
    (h : ∀ body ∈ bodies t, convertBody params body = body) : converted params t = t := by
  induction t using commentInduction with
  | plain t ht => exact converted_eq_self params ht
  | comment u body v hu hbody ih =>
      rw [bodies_insert _ hbody] at h
      rw [converted_insert params u hbody, converted_eq_self params hu,
        h body (by simp), ih fun b hb => h b (by simp [hb])]

/-- What comes behind the beginning of a comment is converted by itself. -/
theorem converted_wrap_suffix (params : List Param) {body : Text} (h : IsBody body) {q q' : Text}
    (hq : q ≠ []) (heq : wrap body = q ++ q') (t : Text) :
    converted params (q' ++ t) = q' ++ converted params t := by
  have hscan : scan (q' ++ t) = tokensFrom (Position.lineStarts (q' ++ t))
      (([] : Text).length + q'.length) t := by
    rw [scan_eq_tokensFrom, tokensFrom, tokensFrom, commentsFrom_wrap_suffix 0 h hq heq]
    rfl
  rw [converted, hscan]
  exact convertFrom_stretch params t _ [] q'

/-! ## Cutting -/

section Cut

variable {params : List Param}

/-- A text may be cut wherever no marker is cut. -/
theorem converted_append {t u : Text}
    (h : ∀ x body q q' v : Text, t = x ++ q → u = q' ++ v → q ≠ [] → q' ≠ [] →
      wrap body = q ++ q' → IsBody body → kind? body = none) :
    converted params (t ++ u) = converted params t ++ converted params u := by
  generalize hn : t ++ u = n
  induction n using commentInduction generalizing t with
  | plain v hv =>
      have ht : bodies t = [] := List.eq_nil_iff_forall_not_mem.mpr fun b hb => by
        have := mem_bodies_append_left hb u
        rw [hn, hv] at this
        cases this
      have hu : bodies u = [] := List.eq_nil_iff_forall_not_mem.mpr fun b hb => by
        have := mem_bodies_append_right (t := t) hb
        rw [hn, hv] at this
        cases this
      rw [converted_eq_self params hv, converted_eq_self params ht, converted_eq_self params hu, hn]
  | comment x body v hx hbody ih =>
      rw [converted_insert params x hbody, converted_eq_self params hx]
      rcases Text.cut_cases hn with ⟨z, rfl, rfl⟩ | ⟨q, q', hq, hq', hwrap, rfl, rfl⟩ | ⟨y, rfl, rfl⟩
      · have ht : bodies t = [] := List.eq_nil_iff_forall_not_mem.mpr fun b hb => by
          have := mem_bodies_append_left hb z
          rw [hx] at this
          cases this
        have hz : bodies z = [] := List.eq_nil_iff_forall_not_mem.mpr fun b hb => by
          have := mem_bodies_append_right (t := t) hb
          rw [hx] at this
          cases this
        rw [converted_insert params z hbody, converted_eq_self params ht,
          converted_eq_self params hz, List.append_assoc]
      · -- inside a comment that stays as it is
        have hkind := h x body q q' v rfl rfl hq hq' hwrap hbody
        have hfixed : ∀ b ∈ bodies (x ++ q), convertBody params b = b := by
          intro b hb
          have hmem := mem_bodies_append_left hb q'
          rw [List.append_assoc, ← hwrap, ← List.append_nil (wrap body), bodies_insert _ hbody,
            hx] at hmem
          obtain rfl : b = body := by simpa using hmem
          exact convertBody_of_kind?_eq_none hkind params
        rw [converted_of_fixed hfixed, converted_wrap_suffix params hbody hq hwrap,
          convertBody_of_kind?_eq_none hkind, hwrap]
        simp
      · have hrest := ih (t := y) (fun x' b q q' w hy hu => h (x ++ (wrap body ++ x')) b q q' w
          (by rw [hy]; simp) hu) rfl
        rw [converted_insert params x hbody, converted_eq_self params hx, hrest]
        simp

/-- A marker without angle brackets is not cut behind a `>`. -/
theorem converted_append_of_end {t u : Text} (h : Silent IsRough ((t ++ [.char '>']) ++ u)) :
    converted params ((t ++ [.char '>']) ++ u) =
      converted params (t ++ [.char '>']) ++ converted params u := by
  refine converted_append fun x body q q' v ht hu hq hq' hwrap hbody => ?_
  by_contra hkind
  refine h body ?_ ⟨hkind, fun hbare => ?_⟩
  · rw [ht, hu, List.append_assoc, ← List.append_assoc q, ← hwrap, bodies_insert _ hbody]
    simp
  · exact wrap_ne_of_end hbare ht hq hq' hwrap

/-- A marker without angle brackets is not cut in front of `</`. -/
theorem converted_append_of_closing {t u : Text}
    (h : Silent IsRough (t ++ .char '<' :: .char '/' :: u)) :
    converted params (t ++ .char '<' :: .char '/' :: u) =
      converted params t ++ converted params (.char '<' :: .char '/' :: u) := by
  refine converted_append fun x body q q' v ht hu hq hq' hwrap hbody => ?_
  by_contra hkind
  refine h body ?_ ⟨hkind, fun hbare => ?_⟩
  · rw [ht, hu, List.append_assoc, ← List.append_assoc q, ← hwrap, bodies_insert _ hbody]
    simp
  · exact wrap_ne_of_closing hbare hu hq' hwrap

/-! ## What is found -/

/-- The end of a part of a text in the converted text. -/
def place (params : List Param) (t : Text) (n : Nat) : Nat := (converted params (t.take n)).length

theorem place_append_left {t u : Text} {n : Nat} (h : n ≤ t.length) :
    place params (t ++ u) n = place params t n := by
  rw [place, place, List.take_append_of_le_length h]

theorem place_append_wrap {u body : Text} (hbody : IsBody body) (v : Text) (n : Nat) :
    place params (u ++ (wrap body ++ v)) ((u ++ wrap body).length + n) =
      (converted params u ++ wrap (convertBody params body)).length + place params v n := by
  rw [← List.append_assoc, place, List.take_length_add_append, List.append_assoc,
    converted_insert params u hbody, place]
  simp only [List.length_append]
  omega

theorem place_of_fixed {t : Text} (h : ∀ body ∈ bodies t, convertBody params body = body) {n : Nat}
    (hn : n ≤ t.length) : place params t n = n := by
  have htake : ∀ body ∈ bodies (t.take n), convertBody params body = body := fun body hb => by
    refine h body ?_
    rw [← List.take_append_drop n t]
    exact mem_bodies_append_left hb _
  rw [place, converted_of_fixed htake, List.length_take, Nat.min_eq_left hn]

section FindAll

variable {α : Type} {form : Form α} {head? : Text → Option α} (hform : Tag.IsTagForm form head?)

include hform

/-- The tags up to the end of the first comment. -/
theorem findAll_convertBody (hvalues : AreValues params) {u body v : Text} (hu : bodies u = [])
    (hbody : IsBody body) (h : Silent IsRough (u ++ (wrap body ++ v))) :
    form.findAll (u ++ wrap (convertBody params body)) =
      (form.findAll (u ++ wrap body)).map (Found.move (place params (u ++ (wrap body ++ v)))) := by
  by_cases hkind : kind? body = none
  · have hfixed : ∀ b ∈ bodies (u ++ wrap body), convertBody params b = b := fun b hb => by
      rw [← List.append_nil (wrap body), bodies_insert _ hbody, hu] at hb
      obtain rfl : b = body := by simpa using hb
      exact convertBody_of_kind?_eq_none hkind params
    have hplace : ∀ n ≤ (u ++ wrap body).length, place params (u ++ (wrap body ++ v)) n = n :=
      fun n hn => by
        rw [← List.append_assoc, place_append_left hn, place_of_fixed hfixed hn]
    rw [convertBody_of_kind?_eq_none hkind, Found.map_move_eq_self]
    intro found hfound
    have := (Form.bounds_findFrom hform.isReader 0 0 none).1 found hfound
    exact ⟨hplace _ (by omega), hplace _ (by omega)⟩
  · have hbare : IsBare body := by
      by_contra hbare
      exact h body (by rw [bodies_insert _ hbody]; simp) ⟨hkind, hbare⟩
    refine hform.findAll_wrap hbare (isBare_convertBody hvalues hbare) (fun n hn => ?_) ?_
    · rw [place_append_left hn, place_of_fixed (by simp [hu]) hn]
    · have hplace : place params (u ++ (wrap body ++ v)) ((u ++ wrap body).length + 0) = _ :=
        place_append_wrap hbody v 0
      rw [Nat.add_zero, converted_eq_self params hu] at hplace
      rw [hplace]
      rfl

/-- The tags of a converted text are those of the text. -/
theorem findAll_converted (hvalues : AreValues params) {t : Text} (h : Silent IsRough t) :
    form.findAll (converted params t) =
      (form.findAll t).map (Found.move (place params t)) := by
  induction t using commentInduction with
  | plain t ht =>
      rw [converted_eq_self params ht, Found.map_move_eq_self]
      intro found hfound
      have := (Form.bounds_findFrom hform.isReader 0 0 none).1 found hfound
      exact ⟨place_of_fixed (by simp [ht]) (by omega), place_of_fixed (by simp [ht]) (by omega)⟩
  | comment u body v hu hbody ih =>
      -- the tags up to the end of the comment, then those behind it
      have hcut : ∀ b w, form.findAll (u ++ (wrap b ++ w)) = form.findAll (u ++ wrap b) ++
          (form.findAll w).map (Found.shift (u ++ wrap b).length) := fun b w => by
        have hend : u ++ wrap b =
            (u ++ (opener ++ (b ++ [.char '-', .char '-']))) ++ [.char '>'] := by
          simp [wrap, closer]
        rw [← List.append_assoc, hend, hform.findAll_append_of_end]
      have hmove : ∀ n, place params (u ++ (wrap body ++ v)) ((u ++ wrap body).length + n) =
          (u ++ wrap (convertBody params body)).length + place params v n := fun n => by
        rw [place_append_wrap hbody, converted_eq_self params hu]
      rw [converted_insert params u hbody, converted_eq_self params hu, hcut, hcut,
        findAll_convertBody hform hvalues hu hbody h, ih h.right.right, List.map_append,
        List.map_map, List.map_map]
      congr 1
      refine List.map_congr_left fun found hfound => ?_
      simp only [Function.comp_apply, Found.move, Found.shift, hmove]

end FindAll

theorem startsOf_converted (hvalues : AreValues params) {t : Text} (h : Silent IsRough t)
    (name : Text) : Tag.startsOf name (converted params t) =
      (Tag.startsOf name t).map (place params t) := by
  rw [Tag.startsOf_eq, Tag.startsOf_eq, findAll_converted Tag.isTagForm_startForm hvalues h,
    List.filter_map, List.map_map, List.map_map]
  rfl

theorem closingsOf_converted (hvalues : AreValues params) {t : Text} (h : Silent IsRough t)
    (name : Text) : Tag.closingsOf name (converted params t) =
      (Tag.closingsOf name t).map (place params t) := by
  rw [Tag.closingsOf_eq, Tag.closingsOf_eq, findAll_converted Tag.isTagForm_anyForm hvalues h,
    List.filter_map, List.map_map, List.map_map]
  rfl

end Cut

end Skeleton

end Stencil
