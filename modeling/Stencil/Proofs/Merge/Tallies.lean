import Stencil.Proofs.Merge.Content
import Stencil.Proofs.Tag.Cuts

/-!
# Counting the closing tags of a page

The end of a binding is put back by a count. In the page the closing tags are counted in all of the
text behind the end (`closingsOf_behind`), so those in the contents of regions are counted as
well, and so is one that a content leaves open, since the marker behind it closes it. In the
template that has been laid out only the literals are searched (`closingSpots_ofSegments`), and the
same count, taken from the last of these, leads as many tags too far to the front as there are in
the contents (`pickFromEnd_append`).
-/

namespace Stencil

open Marker

namespace Segment

/-- How many places a search finds in the literals of segments. -/
def tally (find : Text → List Nat) : List Segment → Nat
  | [] => 0
  | .literal text :: segments => (find text).length + tally find segments
  | .region .. :: segments => tally find segments

/-- How many closing tags of a name begin in the contents of regions. -/
def closingsInside (name : Text) : List Segment → Nat
  | [] => 0
  | .literal _ :: segments => closingsInside name segments
  | .region _ content _ :: segments =>
    (Tag.closingsOf name (content ++ [.char '>'])).length + closingsInside name segments

variable {find : Text → List Nat} {name : Text} {segments : List Segment}

theorem tally_literals (hnil : find [] = []) (t : Text) :
    tally find (literals t) = (find t).length := by
  rw [literals]
  split
  · next hempty =>
    rw [List.isEmpty_iff.mp hempty, hnil]
    rfl
  · rfl

theorem tally_map_unplaced (segments : List Segment) :
    tally find (segments.map unplaced) = tally find segments := by
  induction segments with
  | nil => rfl
  | cons segment segments ih => cases segment <;> simp [tally, unplaced, ih]

theorem tally_eq_zero_iff :
    tally find segments = 0 ↔ ∀ t, .literal t ∈ segments → find t = [] := by
  induction segments with
  | nil => simp [tally]
  | cons segment segments ih => cases segment <;> simp [tally, ih]

theorem closingsInside_literals (t : Text) : closingsInside name (literals t) = 0 := by
  rw [literals]
  split <;> rfl

theorem closingsInside_map_unplaced (segments : List Segment) :
    closingsInside name (segments.map unplaced) = closingsInside name segments := by
  induction segments with
  | nil => rfl
  | cons segment segments ih => cases segment <;> simp [closingsInside, unplaced, ih]

theorem closingsInside_eq_zero_iff : closingsInside name segments = 0 ↔
    ∀ entry ∈ contents segments, Tag.closingsOf name (entry.2 ++ [.char '>']) = [] := by
  induction segments with
  | nil => simp [closingsInside, contents]
  | cons segment segments ih =>
      cases segment with
      | literal t => exact ih
      | region region content span =>
          have hcontents : contents (.region region content span :: segments) =
              (region, content) :: contents segments := rfl
          rw [closingsInside, Nat.add_eq_zero_iff, List.length_eq_zero_iff, ih, hcontents,
            List.forall_mem_cons]

end Segment

/-! ## Counting in the text -/

namespace Outline

open Segment (tally closingsInside)

/-- A region comes before the segments that begin with its end marker. -/
theorem length_closingsOf_region (name : Text) {b : Block} (hclosing : IsBare b.closing)
    (rest : Text) : (Tag.closingsOf name (b.content ++ (wrap b.closing ++ rest))).length =
      (Tag.closingsOf name (b.content ++ [.char '>'])).length +
        (Tag.closingsOf name (wrap b.closing ++ rest)).length := by
  rw [Tag.length_closingsOf_append_wrap name b.content hclosing,
    Tag.length_closingsOf_wrap_append name hclosing]

/-- The closing tags of a text that ends with a comment, and those behind it. -/
theorem length_closingsOf_wrap (name t body u : Text) :
    (Tag.closingsOf name (t ++ (wrap body ++ u))).length =
      (Tag.closingsOf name (t ++ wrap body)).length + (Tag.closingsOf name u).length := by
  have hwrap : t ++ wrap body =
      (t ++ (opener ++ (body ++ [.char '-', .char '-']))) ++ [.char '>'] := by
    simp [wrap, closer]
  rw [← List.append_assoc, hwrap, Tag.closingsOf_append, List.length_append, List.length_map]

theorem length_closingsOf (name : Text) {blocks : List Block} (hbare : Bare blocks) :
    ∀ lead plain : Text, (Tag.closingsOf name (lead ++ (plain ++ textFrom blocks))).length =
      tally (Tag.closingsOf name) (segmentsFrom lead plain blocks) +
        closingsInside name (segmentsFrom lead plain blocks) := by
  induction blocks with
  | nil =>
      intro lead plain
      rw [textFrom_nil, List.append_nil, segmentsFrom, Segment.tally_literals rfl,
        Segment.closingsInside_literals, Nat.add_zero]
  | cons b blocks ih =>
      intro lead plain
      have hnext := ih (fun b' hb' => hbare b' (List.mem_cons_of_mem _ hb')) (wrap b.closing) b.behind
      rw [← List.append_assoc, append_textFrom_cons, length_closingsOf_wrap,
        length_closingsOf_region name (hbare b List.mem_cons_self).2, hnext, segmentsFrom, tally, tally,
        closingsInside, closingsInside, List.append_assoc]
      omega

/-- From a literal on, the segments of an outline are those of an outline. -/
theorem exists_segmentsFrom_of_literal {blocks : List Block} :
    ∀ {lead plain : Text} {init later : List Segment} {t : Text},
      segmentsFrom lead plain blocks = init ++ .literal t :: later →
      ∃ lead' plain' blocks', blocks' ⊆ blocks ∧
        segmentsFrom lead' plain' blocks' = .literal t :: later := by
  induction blocks with
  | nil =>
      intro lead plain init later t h
      cases init with
      | nil => exact ⟨lead, plain, [], List.Subset.refl _, h⟩
      | cons s init =>
          rw [segmentsFrom, Segment.literals] at h
          split at h <;> simp at h
  | cons b blocks ih =>
      intro lead plain init later t h
      rcases init with _ | ⟨s, _ | ⟨s', init⟩⟩
      · exact ⟨lead, plain, b :: blocks, List.Subset.refl _, h⟩
      · rw [segmentsFrom] at h
        simp at h
      · rw [segmentsFrom] at h
        obtain ⟨-, htail⟩ := List.cons.inj h
        obtain ⟨-, hrest⟩ := List.cons.inj htail
        obtain ⟨lead', plain', blocks', hsub, heq⟩ := ih hrest
        exact ⟨lead', plain', blocks', List.subset_cons_of_subset b hsub, heq⟩

/-- The closing tags behind a place in a literal are those of the literals from there on, and those
of the contents. -/
theorem closingsOf_behind (name : Text) {o : Outline} (hbare : Bare o.blocks)
    {init later : List Segment} {u back : Text}
    (h : o.segments = init ++ .literal (u ++ back) :: later) (hback : back ≠ []) :
    ∃ more, Tag.closingsOf name (back ++ Segment.join later) = Tag.closingsOf name back ++ more ∧
      more.length = tally (Tag.closingsOf name) later + closingsInside name later := by
  obtain ⟨lead, plain, blocks, hsub, heq⟩ := exists_segmentsFrom_of_literal h
  have hbare : Bare blocks := fun b hb => hbare b (hsub hb)
  cases blocks with
  | nil =>
      rw [segmentsFrom, Segment.literals] at heq
      split at heq
      · cases heq
      · obtain ⟨-, rfl⟩ := List.cons.inj heq
        exact ⟨[], by rw [Segment.join_nil, List.append_nil, List.append_nil], rfl⟩
  | cons b blocks =>
      rw [segmentsFrom] at heq
      obtain ⟨hliteral, rfl⟩ := List.cons.inj heq
      have hliteral := Segment.literal.inj hliteral
      obtain ⟨back, g, rfl⟩ : ∃ back' g, back = back' ++ [g] :=
        (List.eq_nil_or_concat' back).resolve_left hback
      have hend : (lead ++ (plain ++ (opener ++ (b.opening ++ [.char '-', .char '-'])))) ++
          [Glyph.char '>'] = (u ++ back) ++ [g] := by
        rw [List.append_assoc u, ← hliteral]
        simp [wrap, closer]
      obtain ⟨-, hg⟩ := List.append_inj' hend rfl
      obtain rfl := List.singleton_inj.mp hg
      have hjoin : Segment.join (.region b.name b.content ⟨⟨0, 0⟩, ⟨0, 0⟩⟩ ::
          segmentsFrom (wrap b.closing) b.behind blocks) =
            b.content ++ (wrap b.closing ++ (b.behind ++ textFrom blocks)) := by
        rw [Segment.join_cons, join_segmentsFrom]
        rfl
      refine ⟨_, Tag.closingsOf_append name back _, ?_⟩
      rw [hjoin, List.length_map, length_closingsOf_region name (hbare b List.mem_cons_self).2,
        length_closingsOf name (fun b' hb' => hbare b' (List.mem_cons_of_mem _ hb')), tally,
        closingsInside]
      omega

end Outline

/-! ## Counting in the literals -/

namespace Assembly

open Segment (tally closingsInside)

/-- The spots that a search finds in the literals of segments, the first of which has index `i`. -/
def spotsFrom (find : Text → List Nat) (i : Nat) : List Segment → List (List Spot)
  | [] => []
  | .literal text :: segments =>
    ((find text).map fun offset => ⟨i, offset⟩) :: spotsFrom find (i + 1) segments
  | .region .. :: segments => spotsFrom find (i + 1) segments

section SpotsFrom

variable {find : Text → List Nat}

theorem map_skeletonFrom (find : Text → List Nat) (segments : List Segment) (pieces : List Text) :
    (skeletonFrom pieces.length segments).map (fun i =>
      (find ((pieces ++ segments.map Segment.text)[i]?.getD [])).map fun offset => (⟨i, offset⟩ : Spot)) =
        spotsFrom find pieces.length segments := by
  induction segments generalizing pieces with
  | nil => rfl
  | cons segment segments ih =>
      have hnext := ih (pieces ++ [segment.text])
      rw [List.length_append, List.length_singleton, List.append_assoc, List.singleton_append]
        at hnext
      cases segment with
      | literal t =>
          rw [skeletonFrom, List.map_cons, List.map_cons, hnext, spotsFrom,
            List.getElem?_append_right (Nat.le_refl _), Nat.sub_self]
          rfl
      | region name content span => rw [skeletonFrom, List.map_cons, hnext, spotsFrom]

theorem spots_ofSegments (find : Text → List Nat) (segments : List Segment) :
    (ofSegments segments).spots find = spotsFrom find 0 segments :=
  map_skeletonFrom find segments []

theorem spotsFrom_append (segments others : List Segment) (i : Nat) :
    spotsFrom find i (segments ++ others) =
      spotsFrom find i segments ++ spotsFrom find (i + segments.length) others := by
  induction segments generalizing i with
  | nil => rfl
  | cons segment segments ih =>
      have hlength : i + (segments.length + 1) = i + 1 + segments.length := by omega
      cases segment <;> simp [spotsFrom, ih, hlength]

theorem length_spotsFrom (segments : List Segment) (i : Nat) :
    (spotsFrom find i segments).flatten.length = tally find segments := by
  induction segments generalizing i with
  | nil => rfl
  | cons segment segments ih => cases segment <;> simp [spotsFrom, tally, ih, -List.length_flatten]

theorem piece_lt_of_mem_spotsFrom {spot : Spot} {segments : List Segment} {i : Nat}
    (h : spot ∈ (spotsFrom find i segments).flatten) : spot.piece < i + segments.length := by
  induction segments generalizing i with
  | nil => cases h
  | cons segment segments ih =>
      rw [List.length_cons]
      cases segment with
      | literal t =>
          rw [spotsFrom, List.flatten_cons, List.mem_append] at h
          rcases h with hhere | hlater
          · obtain ⟨offset, -, rfl⟩ := List.mem_map.mp hhere
            dsimp only
            omega
          · have := ih hlater
            omega
      | region name content span =>
          have := ih h
          omega

end SpotsFrom

/-- Before a place in a literal come spots in earlier segments, or further in front in its own. -/
def Precedes (spot : Spot) (init : List Segment) (u : Text) : Prop :=
  spot.piece < init.length ∨ spot.piece = init.length ∧ spot.offset < u.length

/-- The closing tags of the literals, divided by one of them. -/
theorem closingSpots_ofSegments (init later : List Segment) {u back name : Text}
    (h : u.length ∈ Tag.closingsOf name (u ++ back)) :
    ∃ before behind, (ofSegments (init ++ .literal (u ++ back) :: later)).closingSpots name =
        before ++ ⟨init.length, u.length⟩ :: behind ∧
      (∀ spot ∈ before, Precedes spot init u) ∧
      (before = [] ↔ (∀ t, .literal t ∈ init → Tag.closingsOf name t = []) ∧
        ∀ n ∈ Tag.closingsOf name (u ++ back), u.length ≤ n) ∧
      behind.length + 1 =
        (Tag.closingsOf name back).length + tally (Tag.closingsOf name) later := by
  obtain ⟨earlier, more, hback, hsplit, hearlier⟩ := Tag.closingsOf_cut h
  rw [List.drop_left] at hback hsplit
  refine ⟨(spotsFrom (Tag.closingsOf name) 0 init).flatten ++
      earlier.map fun offset => ⟨init.length, offset⟩,
    (more.map fun n => ⟨init.length, u.length + n⟩) ++
      (spotsFrom (Tag.closingsOf name) (init.length + 1) later).flatten, ?_, ?_, ?_, ?_⟩
  · rw [closingSpots, spots_ofSegments, spotsFrom_append, spotsFrom, hsplit, hback]
    simp [Function.comp_def]
  · intro spot hspot
    rcases List.mem_append.mp hspot with hinit | hhere
    · have := piece_lt_of_mem_spotsFrom hinit
      exact Or.inl (by omega)
    · obtain ⟨offset, hoffset, rfl⟩ := List.mem_map.mp hhere
      exact Or.inr ⟨rfl, hearlier offset hoffset⟩
  · rw [List.append_eq_nil_iff, List.map_eq_nil_iff, ← List.length_eq_zero_iff, length_spotsFrom,
      Segment.tally_eq_zero_iff]
    refine and_congr_right fun _ => ⟨?_, fun hfirst => List.eq_nil_iff_forall_not_mem.mpr ?_⟩
    · rintro rfl n hn
      rw [hsplit, List.nil_append] at hn
      obtain ⟨m, -, rfl⟩ := List.mem_map.mp hn
      exact Nat.le_add_right _ _
    · intro n hn
      have hle := hfirst n (by rw [hsplit]; exact List.mem_append_left _ hn)
      have := hearlier n hn
      omega
  · rw [List.length_append, length_spotsFrom, List.length_map, hback, List.length_cons]
    omega

/-- A count from the last that is too large leads too far to the front. -/
theorem pickFromEnd_append (before behind : List Spot) (spot : Spot) (extra : Nat) :
    pickFromEnd (before ++ spot :: behind) (behind.length + 1 + extra : Nat) =
      (before ++ spot :: behind)[before.length - extra]? := by
  rw [pickFromEnd, List.length_append, List.length_cons]
  congr 1
  omega

end Assembly

end Stencil
