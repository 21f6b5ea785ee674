import Stencil.Merge
import Stencil.Proofs.Assembly.Spots
import Stencil.Proofs.Tag.Cuts

/-!
# Comments beside tags

A page that is bound right behind a start tag, or whose binding ends right before a closing one, is
anchored to this tag by a count (`bindingAnchor_eq_of_mem`, `bindingEndAnchor_eq_of_mem`), and a
binding that is counted to a tag of the first piece goes there (`placeBinding_nth`). Mostly the tags
are those of `html`, the first and the last of their name (`bindingAnchor_eq`,
`bindingEndAnchor_eq`), and the comments are placed beside the first and the last ones of the
template (`placeBinding_first`, `placeBindingEnd_last`).
-/

namespace Stencil

namespace Tag

/-- A text that ends with a start tag ends with its last one. -/
theorem starts_getLast? {name u : Text} (h : u.length ∈ startsOf name u) :
    ∃ last, (starts u).getLast? = some last ∧ last.value = name ∧ last.stop = u.length := by
  obtain ⟨found, hfound, hstop⟩ := List.mem_map.mp h
  obtain ⟨hfound, hvalue⟩ := List.mem_filter.mp hfound
  obtain ⟨hbounds, hpairwise⟩ := Form.bounds_findFrom isReader_startForm (t := u) 0 0 none
  have hstops : (starts u).Pairwise fun found found' => found.stop ≤ found'.start := by
    rw [starts, List.pairwise_map]
    exact hpairwise
  refine ⟨found, ?_, of_decide_eq_true hvalue, hstop⟩
  obtain ⟨init, later, heq⟩ := List.append_of_mem hfound
  rcases List.eq_nil_or_concat later with rfl | ⟨later, last, rfl⟩
  · rw [heq, List.getLast?_concat]
  · -- a tag behind the one that ends with the text would not be in the text
    rw [List.concat_eq_append] at heq
    have hlater : last ∈ starts u := by rw [heq]; simp
    obtain ⟨found', hfound', rfl⟩ := List.mem_map.mp hlater
    have hbound := hbounds found' hfound'
    rw [heq] at hstops
    have hle := List.rel_of_pairwise_cons (List.pairwise_append.mp hstops).2.1
      (List.mem_append_right later List.mem_cons_self)
    dsimp only at hle
    omega

/-- A text that begins with a closing tag begins with its first tag. -/
theorem all_head? {name u : Text} (h : 0 ∈ closingsOf name u) :
    ∃ first, (all u).head? = some first ∧ first.value = (true, name) ∧ first.start = 0 := by
  obtain ⟨found, hfound, hstart⟩ := List.mem_map.mp h
  obtain ⟨hfound, hvalue⟩ := List.mem_filter.mp hfound
  obtain ⟨hbounds, hpairwise⟩ := Form.bounds_findFrom isReader_anyForm (t := u) 0 0 none
  have hstops : (all u).Pairwise fun found found' => found.stop ≤ found'.start := by
    rw [all, List.pairwise_map]
    exact hpairwise
  refine ⟨found, ?_, of_decide_eq_true hvalue, hstart⟩
  cases hall : all u with
  | nil => rw [hall] at hfound; cases hfound
  | cons first others =>
      rw [hall] at hfound hstops
      rcases List.mem_cons.mp hfound with rfl | hother
      · rfl
      · -- a tag before the one that begins the text would have no glyphs
        have hle := List.rel_of_pairwise_cons hstops hother
        have hfirst : first ∈ all u := by rw [hall]; exact List.mem_cons_self
        obtain ⟨found', hfound', rfl⟩ := List.mem_map.mp hfirst
        have hbound := hbounds found' hfound'
        dsimp only at hle
        omega

end Tag

namespace Merge

/-- A page bound behind a start tag is anchored there, with as many of its name as there are up to
that one. -/
theorem bindingAnchor_eq_of_mem {page : Page} {name u gap : Text}
    (hbefore : page.text.take page.binding.start = u ++ gap) (hgap : gap.isBlank = true)
    (hu : u.length ∈ Tag.startsOf name u) :
    bindingAnchor page = ⟨some name, (Tag.startsOf name u).length, gap⟩ := by
  obtain ⟨last, hlast, hvalue, hstop⟩ := Tag.starts_getLast? hu
  have hno : Glyph.char '<' ∉ gap := Text.not_mem_of_isBlank hgap (by decide)
  have hstarts : Tag.starts (u ++ gap) = Tag.starts u := by
    obtain ⟨x, rfl⟩ := Tag.exists_end_of_mem hu
    have hgapAll := Tag.isTagForm_startForm.findAll_append_of_no_start hno []
    rw [List.append_nil] at hgapAll
    rw [Tag.starts, Tag.starts, Tag.isTagForm_startForm.findAll_append_of_end, hgapAll]
    simp [Form.findAll, Form.findFrom]
  have hcount : (Tag.starts u).countP (fun found => found.value = name) =
      (Tag.startsOf name u).length := by
    rw [Tag.startsOf, List.length_map, ← List.countP_eq_length_filter]
  rw [bindingAnchor, hbefore, hstarts, hlast]
  simp only [hvalue, hstop, hcount, List.drop_left, blankOrNone, hgap, if_true]

/-- A page bound behind its only start tag of a name is anchored there. -/
theorem bindingAnchor_eq {page : Page} {name u gap : Text}
    (hbefore : page.text.take page.binding.start = u ++ gap) (hgap : gap.isBlank = true)
    (hu : Tag.startsOf name u = [u.length]) : bindingAnchor page = ⟨some name, 1, gap⟩ := by
  rw [bindingAnchor_eq_of_mem hbefore hgap (hu ▸ List.mem_cons_self), hu]
  rfl

/-- A binding that ends before a closing tag is anchored there, with as many of its name as there
are from that one on. -/
theorem bindingEndAnchor_eq_of_mem {page : Page} {bindingEnd : Marker.Token} {name gap v : Text}
    (hafter : page.text.drop bindingEnd.stop = gap ++ v) (hgap : gap.isBlank = true)
    (hv : 0 ∈ Tag.closingsOf name v) :
    bindingEndAnchor page bindingEnd = ⟨some name, (Tag.closingsOf name v).length, gap⟩ := by
  obtain ⟨first, hfirst, hvalue, hstart⟩ := Tag.all_head? hv
  have hno : Glyph.char '<' ∉ gap := Text.not_mem_of_isBlank hgap (by decide)
  have hall : Tag.all (gap ++ v) = (Tag.all v).map (Found.shift gap.length) := by
    rw [Tag.all, Tag.isTagForm_anyForm.findAll_append_of_no_start hno, List.map_map, Tag.all,
      List.map_map]
    rfl
  have hcount : (Tag.all (gap ++ v)).countP (fun found => found.value = (true, name)) =
      (Tag.closingsOf name v).length := by
    rw [Tag.closingsOf, List.length_map, ← List.countP_eq_length_filter, hall, List.countP_map]
    rfl
  have hhead : (Tag.all (gap ++ v)).head? = some (first.shift gap.length) := by
    rw [hall, List.head?_map, hfirst, Option.map_some]
  rw [bindingEndAnchor, hafter]
  simp only [hhead, Found.value_shift, Found.start_shift, hvalue, hstart, hcount, Nat.add_zero,
    List.take_left, blankOrNone, hgap, if_true]

/-- A binding that ends before the only closing tag of a name behind it is anchored there. -/
theorem bindingEndAnchor_eq {page : Page} {bindingEnd : Marker.Token} {name gap v : Text}
    (hafter : page.text.drop bindingEnd.stop = gap ++ v) (hgap : gap.isBlank = true)
    (hv : Tag.closingsOf name v = [0]) :
    bindingEndAnchor page bindingEnd = ⟨some name, 1, gap⟩ := by
  rw [bindingEndAnchor_eq_of_mem hafter hgap (hv ▸ List.mem_cons_self), hv]
  rfl

end Merge

namespace Assembly

theorem skeleton_spots_cons {a : Assembly} {find : Text → List Nat} {i : Nat} {more : List Nat}
    (h : a.skeleton = i :: more) : a.spots find =
      ((find (a.pieces[i]?.getD [])).map fun offset => ⟨i, offset⟩) ::
        more.map fun i => (find (a.pieces[i]?.getD [])).map fun offset => ⟨i, offset⟩ := by
  rw [spots, h, List.map_cons]

/-- Counting from the first, a spot of the first group is found by its index there. -/
theorem pickFromStart_of_getElem? {spots : List Spot} {k : Nat} {spot : Spot}
    (h : spots[k]? = some spot) (groups : List (List Spot)) :
    pickFromStart (spots :: groups) (k + 1 : Nat) = some spot := by
  obtain ⟨hlt, -⟩ := List.getElem?_eq_some_iff.mp h
  rw [pickFromStart, if_neg (by omega), if_pos]
  · rw [show ((k + 1 : Nat) - 1 : Int).toNat = k by omega, List.flatten_cons,
      List.getElem?_append_left hlt, h]
  · rw [List.flatten_cons, List.length_append]
    omega

section First

variable {a : Assembly} {name x y : Text} {others : List Text} {more : List Nat} {k : Nat}
  (hpieces : a.pieces = (x ++ y) :: others) (hskeleton : a.skeleton = 0 :: more)

section Nth

variable (hx : (Tag.startsOf name (x ++ y))[k]? = some x.length)

include hpieces hskeleton hx

theorem pickFromStart_nth :
    pickFromStart (a.startSpots name) (k + 1 : Nat) = some ⟨0, x.length⟩ := by
  rw [startSpots, skeleton_spots_cons hskeleton, hpieces, List.getElem?_cons_zero,
    Option.getD_some]
  exact pickFromStart_of_getElem? (by rw [List.getElem?_map, hx, Option.map_some]) _

/-- A binding goes behind the start tag that it is counted to, if that is in the first piece. -/
theorem placeBinding_nth (raw gap : Text) :
    a.placeBinding raw ⟨some name, (k + 1 : Nat), gap⟩ =
      ⟨(x ++ ((gap ++ raw) ++ y)) :: others, a.skeleton⟩ := by
  have hcuts : Cuts a ⟨0, x.length⟩ [] x y others := ⟨hpieces, rfl, rfl⟩
  rw [placeBinding]
  simp only [insertAfterStartTag, pickFromStart_nth hpieces hskeleton hx, Option.map_some]
  exact hcuts.insertAt_eq _

theorem lead_nth (gap : Text) : a.lead ⟨some name, (k + 1 : Nat), gap⟩ = x := by
  have hcuts : Cuts a ⟨0, x.length⟩ [] x y others := ⟨hpieces, rfl, rfl⟩
  rw [lead, bindingSpot?]
  simp only [Option.bind_some, pickFromStart_nth hpieces hskeleton hx, Option.some_or,
    Option.map_some, Option.getD_some]
  exact hcuts.before_eq

end Nth

variable (hx : (Tag.startsOf name (x ++ y)).head? = some x.length)

include hpieces hskeleton hx

/-- A binding goes behind the first start tag if that ends the beginning of the first piece. -/
theorem placeBinding_first (raw gap : Text) :
    a.placeBinding raw ⟨some name, 1, gap⟩ = ⟨(x ++ ((gap ++ raw) ++ y)) :: others, a.skeleton⟩ :=
  placeBinding_nth hpieces hskeleton (k := 0) (List.head?_eq_getElem?.symm.trans hx) raw gap

theorem lead_first (gap : Text) : a.lead ⟨some name, 1, gap⟩ = x :=
  lead_nth hpieces hskeleton (k := 0) (List.head?_eq_getElem?.symm.trans hx) gap

end First

/-- The end of a binding goes before the last closing tag if that begins the end of the last
piece. -/
theorem placeBindingEnd_last {a : Assembly} {name x y : Text} {others : List Text}
    {more : List Nat} (hpieces : a.pieces = others ++ [x ++ y])
    (hskeleton : a.skeleton = more ++ [others.length])
    (hy : (Tag.closingsOf name (x ++ y)).getLast? = some x.length) (raw gap : Text) :
    a.placeBindingEnd raw ⟨some name, 1, gap⟩ =
      ⟨others ++ [x ++ ((raw ++ gap) ++ y)], a.skeleton⟩ := by
  have hspots : ∃ earlier, a.closingSpots name = earlier ++ [⟨others.length, x.length⟩] := by
    obtain ⟨init, hinit⟩ := List.getLast?_eq_some_iff.mp hy
    refine ⟨(more.map fun i => (Tag.closingsOf name (a.pieces[i]?.getD [])).map fun offset =>
      (⟨i, offset⟩ : Spot)).flatten ++ init.map fun offset => ⟨others.length, offset⟩, ?_⟩
    rw [closingSpots, spots, hskeleton, hpieces]
    simp [hinit]
  obtain ⟨earlier, hspots⟩ := hspots
  have hpick : pickFromEnd (a.closingSpots name) 1 = some ⟨others.length, x.length⟩ := by
    rw [pickFromEnd, hspots]
    simp
  have hcuts : Cuts a ⟨others.length, x.length⟩ others x y [] := ⟨hpieces, rfl, rfl⟩
  rw [placeBindingEnd]
  simp only [insertBeforeClosingTag, hpick, Option.map_some]
  exact hcuts.insertAt_eq _

/-! ## An assembly between two tags -/

/-- An assembly that begins with `front`, which ends with a start tag, and ends with `back`, which
begins with the last closing tag. -/
structure Framed (a : Assembly) (name front mid back : Text) : Prop where
  first : ∃ y others more, a.pieces = (front ++ y) :: others ∧ a.skeleton = 0 :: more
  last : ∃ others x more, a.pieces = others ++ [x ++ back] ∧ a.skeleton = more ++ [others.length] ∧
    (Tag.closingsOf name (x ++ back)).getLast? = some x.length
  text_eq : a.text = front ++ (mid ++ back)
  starts : Tag.startsOf name front = [front.length]

namespace Framed

variable {a : Assembly} {name front mid back : Text}

theorem starts_append (h : Framed a name front mid back) (y : Text) :
    (Tag.startsOf name (front ++ y)).head? = some front.length := by
  have hstarts := h.starts
  obtain ⟨x, rfl⟩ := Tag.exists_end hstarts
  rw [Tag.startsOf_append, hstarts]
  rfl

/-- The end of a binding goes in front of `back`, and the rest stays. -/
theorem placeBindingEnd (h : Framed a name front mid back) (raw gap : Text) :
    ∃ y others more, (a.placeBindingEnd raw ⟨some name, 1, gap⟩).pieces = (front ++ y) :: others ∧
      (a.placeBindingEnd raw ⟨some name, 1, gap⟩).skeleton = 0 :: more ∧
      y ++ others.flatten = mid ++ ((raw ++ gap) ++ back) := by
  obtain ⟨others, x, more, hpieces, hskeleton, hlast⟩ := h.last
  obtain ⟨y', others', more', hpieces', hskeleton'⟩ := h.first
  rw [placeBindingEnd_last hpieces hskeleton hlast]
  have htext : others.flatten ++ x = front ++ mid := by
    have := h.text_eq
    rw [text, hpieces, List.flatten_append, List.flatten_singleton] at this
    simp only [← List.append_assoc] at this
    exact List.append_cancel_right this
  cases others with
  | nil =>
      rw [List.flatten_nil, List.nil_append] at htext
      refine ⟨mid ++ ((raw ++ gap) ++ back), [], more', ?_, hskeleton', by simp⟩
      rw [htext]
      simp
  | cons piece others =>
      rw [hpieces, List.cons_append] at hpieces'
      obtain ⟨rfl, -⟩ := List.cons.inj hpieces'
      refine ⟨y', others ++ [x ++ ((raw ++ gap) ++ back)], more', rfl, hskeleton', ?_⟩
      rw [List.flatten_cons, List.append_assoc, List.append_assoc] at htext
      rw [← List.append_cancel_left htext, List.flatten_append, List.flatten_singleton]
      simp

end Framed

end Assembly

end Stencil
