import Stencil.Assembly
import Stencil.Proofs.Tag.Search

/-!
# Spots of an assembly

Placing a comment comes down to one of two things: it is written into a skeleton piece at a spot, or
it becomes a piece at an edge (`placeBinding_eq`, `placeBindingEnd_eq`). A spot that was found cuts
its piece behind a start tag (`cuts_of_mem_startSpots`) or before a closing tag
(`cuts_of_mem_closingSpots`), so all that is known of the two parts is a glyph or two at the seam.
-/

namespace Stencil

namespace Assembly

/-- A spot cuts a piece into `left` and `right`, behind `pieces` and before `others`. -/
structure Cuts (a : Assembly) (spot : Spot) (pieces : List Text) (left right : Text)
    (others : List Text) : Prop where
  pieces_eq : a.pieces = pieces ++ (left ++ right) :: others
  piece_eq : spot.piece = pieces.length
  offset_eq : spot.offset = left.length

/-- The text that comes before a spot. -/
def before (a : Assembly) (spot : Spot) : Text :=
  (a.pieces.take spot.piece).flatten ++ (a.pieces[spot.piece]?.getD []).take spot.offset

/-- The text that comes behind a spot. -/
def behind (a : Assembly) (spot : Spot) : Text :=
  (a.pieces[spot.piece]?.getD []).drop spot.offset ++ (a.pieces.drop (spot.piece + 1)).flatten

section Cuts

variable {a : Assembly} {spot : Spot} {pieces others : List Text} {left right : Text}

theorem Cuts.before_eq (h : a.Cuts spot pieces left right others) :
    a.before spot = pieces.flatten ++ left := by
  simp [before, h.pieces_eq, h.piece_eq, h.offset_eq]

theorem Cuts.behind_eq (h : a.Cuts spot pieces left right others) :
    a.behind spot = right ++ others.flatten := by
  simp [behind, h.pieces_eq, h.piece_eq, h.offset_eq]

theorem Cuts.text_eq (h : a.Cuts spot pieces left right others) :
    a.text = a.before spot ++ a.behind spot := by
  rw [h.before_eq, h.behind_eq, text, h.pieces_eq]
  simp

theorem Cuts.insertAt_eq (h : a.Cuts spot pieces left right others) (t : Text) :
    a.insertAt spot t = ⟨pieces ++ (left ++ (t ++ right)) :: others, a.skeleton⟩ := by
  rw [insertAt, List.modify_eq_take_cons_drop (by simp [h.pieces_eq, h.piece_eq])]
  simp [h.pieces_eq, h.piece_eq, h.offset_eq]

theorem Cuts.text_insertAt (h : a.Cuts spot pieces left right others) (t : Text) :
    (a.insertAt spot t).text = a.before spot ++ (t ++ a.behind spot) := by
  rw [h.insertAt_eq, h.before_eq, h.behind_eq, text]
  simp

end Cuts

/-! ## Spots that are found -/

theorem getElem?_split {α : Type} (before : List α) (entry : α) (after : List α) :
    (before ++ entry :: after)[before.length]? = some entry := by
  rw [List.getElem?_append_right (Nat.le_refl _), Nat.sub_self, List.getElem?_cons_zero]

/-- A list is cut at an index that it has. -/
theorem exists_split_of_getElem? {α : Type} {entries : List α} {n : Nat} {entry : α}
    (h : entries[n]? = some entry) :
    ∃ before after, entries = before ++ entry :: after ∧ n = before.length := by
  obtain ⟨hlt, rfl⟩ := List.getElem?_eq_some_iff.mp h
  refine ⟨entries.take n, entries.drop (n + 1), ?_, ?_⟩
  · rw [← List.drop_eq_getElem_cons hlt, List.take_append_drop]
  · rw [List.length_take, Nat.min_eq_left (Nat.le_of_lt hlt)]

theorem exists_of_mem_spots {a : Assembly} {find : Text → List Nat} (hnil : find [] = [])
    {spot : Spot} (h : spot ∈ (a.spots find).flatten) :
    spot.piece ∈ a.skeleton ∧ ∃ pieces piece others, a.pieces = pieces ++ piece :: others ∧
      spot.piece = pieces.length ∧ spot.offset ∈ find piece := by
  simp only [spots, List.mem_flatten, List.mem_map] at h
  obtain ⟨_, ⟨i, hi, rfl⟩, hspot⟩ := h
  obtain ⟨offset, hoffset, rfl⟩ := List.mem_map.mp hspot
  refine ⟨hi, ?_⟩
  cases hpiece : a.pieces[i]? with
  | none =>
      rw [hpiece, Option.getD_none, hnil] at hoffset
      cases hoffset
  | some piece =>
      rw [hpiece, Option.getD_some] at hoffset
      obtain ⟨pieces, others, heq, hlength⟩ := exists_split_of_getElem? hpiece
      exact ⟨pieces, piece, others, heq, hlength, hoffset⟩

theorem cuts_of_mem_startSpots {a : Assembly} {tag : Text} {spot : Spot}
    (h : spot ∈ (a.startSpots tag).flatten) :
    spot.piece ∈ a.skeleton ∧ ∃ pieces left right others,
      a.Cuts spot pieces (left ++ [.char '>']) right others := by
  obtain ⟨hmem, pieces, piece, others, hpieces, hpiece, hoffset⟩ := exists_of_mem_spots rfl h
  obtain ⟨left, right, rfl, hlength⟩ := Tag.startsOf_split hoffset
  exact ⟨hmem, pieces, left, right, others, hpieces, hpiece, hlength⟩

theorem cuts_of_mem_closingSpots {a : Assembly} {tag : Text} {spot : Spot}
    (h : spot ∈ a.closingSpots tag) :
    spot.piece ∈ a.skeleton ∧ ∃ pieces left right others,
      a.Cuts spot pieces left (.char '<' :: .char '/' :: right) others := by
  obtain ⟨hmem, pieces, piece, others, hpieces, hpiece, hoffset⟩ := exists_of_mem_spots rfl h
  obtain ⟨left, right, rfl, hlength⟩ := Tag.closingsOf_split hoffset
  exact ⟨hmem, pieces, left, right, others, hpieces, hpiece, hlength⟩

theorem mem_of_pickFromStart {groups : List (List Spot)} {occurrence : Int} {spot : Spot}
    (h : pickFromStart groups occurrence = some spot) : spot ∈ groups.flatten := by
  rw [pickFromStart] at h
  split at h
  · cases h
  · split at h
    · exact List.mem_of_getElem? h
    · exact List.mem_of_getLast? h

theorem mem_of_pickFromEnd {spots : List Spot} {occurrence : Int} {spot : Spot}
    (h : pickFromEnd spots occurrence = some spot) : spot ∈ spots :=
  List.mem_of_getElem? h

/-! ## Where comments are placed -/

/-- Where a binding is written; in front of everything if there is no such spot. -/
def bindingSpot? (a : Assembly) (anchor : Anchor) : Option Spot :=
  anchor.tag?.bind fun tag =>
    (pickFromStart (a.startSpots tag) anchor.occurrence).or
      (if tag = htmlTag then none else pickFromStart (a.startSpots htmlTag) 1)

/-- Where the end of a binding is written; behind everything if there is no such spot. -/
def bindingEndSpot? (a : Assembly) (anchor : Anchor) : Option Spot :=
  anchor.tag?.bind fun tag =>
    (pickFromEnd (a.closingSpots tag) anchor.occurrence).or
      (if tag = htmlTag then none else pickFromEnd (a.closingSpots htmlTag) 1)

theorem exists_of_bindingSpot? {a : Assembly} {anchor : Anchor} {spot : Spot}
    (h : a.bindingSpot? anchor = some spot) : ∃ tag, spot ∈ (a.startSpots tag).flatten := by
  obtain ⟨tag, -, h⟩ := Option.bind_eq_some_iff.mp h
  rcases Option.or_eq_some_iff.mp h with h | ⟨-, h⟩
  · exact ⟨tag, mem_of_pickFromStart h⟩
  · split at h
    · cases h
    · exact ⟨htmlTag, mem_of_pickFromStart h⟩

theorem exists_of_bindingEndSpot? {a : Assembly} {anchor : Anchor} {spot : Spot}
    (h : a.bindingEndSpot? anchor = some spot) : ∃ tag, spot ∈ a.closingSpots tag := by
  obtain ⟨tag, -, h⟩ := Option.bind_eq_some_iff.mp h
  rcases Option.or_eq_some_iff.mp h with h | ⟨-, h⟩
  · exact ⟨tag, mem_of_pickFromEnd h⟩
  · split at h
    · cases h
    · exact ⟨htmlTag, mem_of_pickFromEnd h⟩

/-- A binding is written at its spot, or becomes the first piece; the gap of its anchor may be left
out. -/
theorem placeBinding_cases (a : Assembly) (raw : Text) (anchor : Anchor) :
    ∃ gap : Text, (gap = anchor.gap ∨ gap = []) ∧
      a.placeBinding raw anchor = match a.bindingSpot? anchor with
        | some spot => a.insertAt spot (gap ++ raw)
        | none => a.prepend (gap ++ raw) := by
  rw [placeBinding, bindingSpot?]
  cases anchor.tag? with
  | none => exact ⟨anchor.gap, Or.inl rfl, rfl⟩
  | some tag =>
      dsimp only [Option.bind_some]
      rw [insertAfterStartTag, insertAfterStartTag]
      cases pickFromStart (a.startSpots tag) anchor.occurrence with
      | some spot => exact ⟨anchor.gap, Or.inl rfl, rfl⟩
      | none =>
          refine ⟨[], Or.inr rfl, ?_⟩
          dsimp only [Option.map_none, Option.none_or]
          split
          · rfl
          · cases pickFromStart (a.startSpots htmlTag) 1 <;> rfl

theorem placeBinding_eq (a : Assembly) (raw : Text) {anchor : Anchor}
    (hgap : anchor.gap.isBlank = true) : ∃ gap : Text, gap.isBlank = true ∧
      a.placeBinding raw anchor = match a.bindingSpot? anchor with
        | some spot => a.insertAt spot (gap ++ raw)
        | none => a.prepend (gap ++ raw) := by
  obtain ⟨gap, rfl | rfl, hplace⟩ := a.placeBinding_cases raw anchor
  · exact ⟨anchor.gap, hgap, hplace⟩
  · exact ⟨[], rfl, hplace⟩

/-- The end of a binding is written at its spot, or becomes the last piece; the gap of its anchor may
be left out. -/
theorem placeBindingEnd_cases (a : Assembly) (raw : Text) (anchor : Anchor) :
    ∃ gap : Text, (gap = anchor.gap ∨ gap = []) ∧
      a.placeBindingEnd raw anchor = match a.bindingEndSpot? anchor with
        | some spot => a.insertAt spot (raw ++ gap)
        | none => a.append (raw ++ gap) := by
  rw [placeBindingEnd, bindingEndSpot?]
  cases anchor.tag? with
  | none => exact ⟨anchor.gap, Or.inl rfl, rfl⟩
  | some tag =>
      dsimp only [Option.bind_some]
      rw [insertBeforeClosingTag, insertBeforeClosingTag]
      cases pickFromEnd (a.closingSpots tag) anchor.occurrence with
      | some spot => exact ⟨anchor.gap, Or.inl rfl, rfl⟩
      | none =>
          refine ⟨[], Or.inr rfl, ?_⟩
          dsimp only [Option.map_none, Option.none_or]
          rw [List.append_nil]
          split
          · rfl
          · cases pickFromEnd (a.closingSpots htmlTag) 1 <;> rfl

theorem placeBindingEnd_eq (a : Assembly) (raw : Text) {anchor : Anchor}
    (hgap : anchor.gap.isBlank = true) : ∃ gap : Text, gap.isBlank = true ∧
      a.placeBindingEnd raw anchor = match a.bindingEndSpot? anchor with
        | some spot => a.insertAt spot (raw ++ gap)
        | none => a.append (raw ++ gap) := by
  obtain ⟨gap, rfl | rfl, hplace⟩ := a.placeBindingEnd_cases raw anchor
  · exact ⟨anchor.gap, hgap, hplace⟩
  · exact ⟨[], rfl, hplace⟩

/-- The text in front of a binding that is placed. -/
def lead (a : Assembly) (anchor : Anchor) : Text :=
  ((a.bindingSpot? anchor).map a.before).getD []

/-- The text behind a binding that is placed. -/
def trail (a : Assembly) (anchor : Anchor) : Text :=
  ((a.bindingSpot? anchor).map a.behind).getD a.text

theorem text_placeBinding (a : Assembly) (raw : Text) {anchor : Anchor}
    (hgap : anchor.gap.isBlank = true) : ∃ gap : Text, gap.isBlank = true ∧
      (a.placeBinding raw anchor).text = a.lead anchor ++ ((gap ++ raw) ++ a.trail anchor) := by
  obtain ⟨gap, hblank, hplace⟩ := a.placeBinding_eq raw hgap
  refine ⟨gap, hblank, ?_⟩
  rw [hplace, lead, trail]
  cases hspot : a.bindingSpot? anchor with
  | none => rfl
  | some spot =>
      obtain ⟨tag, hmem⟩ := exists_of_bindingSpot? hspot
      obtain ⟨-, pieces, left, right, others, hcuts⟩ := cuts_of_mem_startSpots hmem
      exact hcuts.text_insertAt _

end Assembly

end Stencil
