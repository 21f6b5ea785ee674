import Stencil.Proofs.Assembly.Spots
import Stencil.Proofs.Tag.Grammar

/-!
# Counting to a tag

Where an insertion goes is said by a count of tags over all skeleton pieces. The tags of a name are
gathered piece after piece in the order of the skeleton, and each piece is read by the grammar of tags
and not by the search (`Collects`). `insertions_counted` says that an insertion behind start tags goes
behind the tag that the count comes to, or the last one; that an insertion before closing tags is
counted in the same way from the other end; that one skeleton piece is written to and nothing else
changes (`Inserted`); and that nothing is inserted just when there is no such tag.
-/

namespace Stencil

namespace Assembly

/-! ## Tags over many pieces -/

section Collects

variable {α : Type}

/-- The matches of a rule that count, in the pieces at some indexes: piece after piece, and in each
from left to right. With each match goes the index of its piece. -/
inductive Collects (rule : Rule α) (counts : α → Bool) (pieces : List Text) :
    List Nat → List (Nat × Found α) → Prop
  | nil : Collects rule counts pieces [] []
  | cons {i : Nat} {indexes : List Nat} {piece : Text} {marks : List (Found α)}
      {later : List (Nat × Found α)} (hpiece : pieces[i]? = some piece)
      (hmarks : rule.Marks piece marks) (hlater : Collects rule counts pieces indexes later) :
      Collects rule counts pieces (i :: indexes)
        ((marks.filter fun mark => counts mark.value).map (Prod.mk i) ++ later)

/-- The same as a search collects them. -/
def collected (form : Form α) (counts : α → Bool) (pieces : List Text) (indexes : List Nat) :
    List (Nat × Found α) :=
  indexes.flatMap fun i => ((form.findAll (pieces[i]?.getD [])).filter fun mark =>
    counts mark.value).map (Prod.mk i)

variable {form : Form α} {rule : Rule α} {counts : α → Bool} {pieces : List Text}

theorem collects_iff (h : form.Follows rule) {indexes : List Nat}
    (hindexes : ∀ i ∈ indexes, i < pieces.length) {found : List (Nat × Found α)} :
    Collects rule counts pieces indexes found ↔ found = collected form counts pieces indexes := by
  induction indexes generalizing found with
  | nil => exact ⟨fun hfound => by cases hfound; rfl, fun heq => heq ▸ .nil⟩
  | cons i indexes ih =>
      obtain ⟨hi, hindexes⟩ := List.forall_mem_cons.mp hindexes
      have hpiece : pieces[i]? = some pieces[i] := List.getElem?_eq_getElem hi
      rw [collected, List.flatMap_cons, hpiece, Option.getD_some]
      constructor
      · intro hfound
        cases hfound with
        | cons hpiece' hmarks hlater =>
            obtain rfl := Option.some.inj (hpiece.symm.trans hpiece')
            rw [h.marks_iff.mp hmarks, (ih hindexes).mp hlater]
            rfl
      · rintro rfl
        exact .cons hpiece (h.marks_findAll _) ((ih hindexes).mpr rfl)

theorem exists_of_mem_collected {indexes : List Nat}
    (hindexes : ∀ i ∈ indexes, i < pieces.length) {i : Nat} {mark : Found α}
    (hmem : (i, mark) ∈ collected form counts pieces indexes) :
    i ∈ indexes ∧ ∃ piece, pieces[i]? = some piece ∧ mark ∈ form.findAll piece := by
  obtain ⟨j, hj, hmem⟩ := List.mem_flatMap.mp hmem
  obtain ⟨mark', hmark, heq⟩ := List.mem_map.mp hmem
  obtain ⟨rfl, rfl⟩ := Prod.mk.inj heq
  have hpiece := List.getElem?_eq_getElem (hindexes j hj)
  rw [hpiece, Option.getD_some] at hmark
  exact ⟨hj, _, hpiece, (List.mem_filter.mp hmark).1⟩

/-- The spots of an assembly are a place in each match that counts. -/
theorem flatten_spots (a : Assembly) (counts : α → Bool) {find : Text → List Nat}
    {place : Found α → Nat}
    (hfind : ∀ t, find t = ((form.findAll t).filter fun mark => counts mark.value).map place) :
    (a.spots find).flatten =
      (collected form counts a.pieces a.skeleton).map fun tag => ⟨tag.1, place tag.2⟩ := by
  rw [spots, collected, ← List.flatMap_def, List.map_flatMap]
  refine List.flatMap_congr fun i _ => ?_
  rw [hfind, List.map_map, List.map_map]
  rfl

end Collects

/-! ## The entry that is counted to -/

/-- Counting from one, `k` comes to this entry, or passes the end and this is the last one. -/
def CountsTo {α : Type} (k : Nat) (entries : List α) (entry : α) : Prop :=
  ∃ before after, entries = before ++ entry :: after ∧
    (before.length + 1 = k ∨ before.length + 1 < k ∧ after = [])

section CountsTo

variable {α β : Type} {k : Nat} {entries : List α}

theorem CountsTo.mem {entry : α} (h : CountsTo k entries entry) : entry ∈ entries := by
  obtain ⟨before, after, rfl, -⟩ := h
  simp

theorem CountsTo.exists_of_map {f : α → β} {entry : β} (h : CountsTo k (entries.map f) entry) :
    ∃ x, CountsTo k entries x ∧ f x = entry := by
  obtain ⟨before, after, heq, hcount⟩ := h
  obtain ⟨before', rest, rfl, rfl, hrest⟩ := List.map_eq_append_iff.mp heq
  obtain ⟨x, after', rfl, rfl, rfl⟩ := List.map_eq_cons_iff.mp hrest
  rw [List.length_map, List.map_eq_nil_iff] at hcount
  exact ⟨x, ⟨before', after', rfl, hcount⟩, rfl⟩

/-- The entry that is counted to, by its index. -/
theorem countsTo_of_getElem? {n : Nat} {entry : α} (h : entries[n]? = some entry)
    (hcount : n + 1 = k ∨ n + 1 < k ∧ n + 1 = entries.length) : CountsTo k entries entry := by
  obtain ⟨before, after, rfl, rfl⟩ := exists_split_of_getElem? h
  refine ⟨before, after, rfl, hcount.imp_right fun ⟨hlt, hlast⟩ => ⟨hlt, ?_⟩⟩
  rw [List.length_append, List.length_cons] at hlast
  exact List.length_eq_zero_iff.mp (by omega)

theorem pickFromStart_counts (hk : 1 ≤ k) (groups : List (List Spot)) :
    (pickFromStart groups k = none ↔ groups.flatten = []) ∧
      ∀ spot, pickFromStart groups k = some spot → CountsTo k groups.flatten spot := by
  rw [pickFromStart, if_neg (by omega)]
  by_cases hle : k ≤ groups.flatten.length
  · rw [if_pos (by omega), show ((k : Int) - 1).toNat = k - 1 by omega]
    refine ⟨?_, fun spot hspot => countsTo_of_getElem? hspot (by omega)⟩
    rw [List.getElem?_eq_none_iff, ← List.length_eq_zero_iff]
    omega
  · rw [if_neg (by omega)]
    refine ⟨List.getLast?_eq_none_iff, fun spot hspot => ?_⟩
    rw [List.getLast?_eq_getElem?] at hspot
    obtain ⟨hlt, -⟩ := List.getElem?_eq_some_iff.mp hspot
    exact countsTo_of_getElem? hspot (by omega)

theorem pickFromEnd_counts (hk : 1 ≤ k) (spots : List Spot) :
    (pickFromEnd spots k = none ↔ spots = []) ∧
      ∀ spot, pickFromEnd spots k = some spot → CountsTo k spots.reverse spot := by
  rw [pickFromEnd, show ((spots.length : Int) - k).toNat = spots.length - k by omega]
  refine ⟨?_, fun spot hspot => ?_⟩
  · rw [List.getElem?_eq_none_iff, ← List.length_eq_zero_iff]
    omega
  · obtain ⟨hlt, -⟩ := List.getElem?_eq_some_iff.mp hspot
    have hreverse : spots.reverse[spots.length - 1 - (spots.length - k)]? = some spot := by
      rw [List.getElem?_reverse (by omega), ← hspot]
      congr 1
      omega
    exact countsTo_of_getElem? hreverse (by rw [List.length_reverse]; omega)

end CountsTo

/-! ## What an insertion leaves -/

/-- A text is written at an offset of one skeleton piece, and nothing else happens. -/
structure Inserted (a : Assembly) (i offset : Nat) (text : Text) (a' : Assembly) : Prop where
  listed : i ∈ a.skeleton
  written : ∃ left right, left.length = offset ∧ a.pieces[i]? = some (left ++ right) ∧
    a'.pieces[i]? = some (left ++ (text ++ right))
  changed_iff : ∀ j, a'.pieces[j]? ≠ a.pieces[j]? ↔ j = i ∧ text ≠ []
  skeleton_eq : a'.skeleton = a.skeleton

theorem inserted_insertAt {a : Assembly} {i offset : Nat} {piece : Text} (hlisted : i ∈ a.skeleton)
    (hpiece : a.pieces[i]? = some piece) (hoffset : offset ≤ piece.length) (text : Text) :
    a.Inserted i offset text (a.insertAt ⟨i, offset⟩ text) := by
  have hself : (a.insertAt ⟨i, offset⟩ text).pieces[i]? =
      some (piece.take offset ++ (text ++ piece.drop offset)) := by
    rw [insertAt, List.getElem?_modify_eq, hpiece, ← List.append_assoc]
    rfl
  refine ⟨hlisted, ⟨piece.take offset, piece.drop offset, ?_, ?_, hself⟩, fun j => ?_, rfl⟩
  · rw [List.length_take, Nat.min_eq_left hoffset]
  · rw [hpiece, List.take_append_drop]
  · by_cases hj : j = i
    · subst hj
      rw [hself, hpiece, Ne, Option.some_inj]
      constructor
      · intro hne
        refine ⟨rfl, ?_⟩
        rintro rfl
        exact hne (List.take_append_drop offset piece)
      · rintro ⟨-, htext⟩ heq
        refine htext (List.length_eq_zero_iff.mp ?_)
        have hlength := congrArg List.length heq
        simp only [List.length_append, List.length_take, List.length_drop] at hlength
        omega
    · have hsame : (a.insertAt ⟨i, offset⟩ text).pieces[j]? = a.pieces[j]? :=
        List.getElem?_modify_ne _ _ (Ne.symm hj)
      simp [hsame, hj]

/-- An insertion at a place in the match that a count comes to. -/
theorem exists_inserted {α : Type} {form : Form α} {rule : Rule α} (h : form.Follows rule)
    {counts : α → Bool} {a : Assembly} (hlisted : ∀ i ∈ a.skeleton, i < a.pieces.length)
    {tags : List (Nat × Found α)} {place : Found α → Nat} {k : Nat} {spot : Spot}
    (htags : ∀ tag ∈ tags, tag ∈ collected form counts a.pieces a.skeleton)
    (hplace : ∀ mark, mark.start < mark.stop → place mark ≤ mark.stop)
    (hcount : CountsTo k (tags.map fun tag => (⟨tag.1, place tag.2⟩ : Spot)) spot) (text : Text) :
    ∃ i mark, CountsTo k tags (i, mark) ∧ a.Inserted i (place mark) text (a.insertAt spot text) := by
  obtain ⟨⟨i, mark⟩, htag, rfl⟩ := hcount.exists_of_map
  obtain ⟨hi, piece, hpiece, hmark⟩ := exists_of_mem_collected hlisted (htags _ htag.mem)
  obtain ⟨-, hlt, hle⟩ := (Form.bounds_findFrom h.isReader 0 0 none).1 mark hmark
  have := hplace mark hlt
  exact ⟨i, mark, htag, inserted_insertAt hi hpiece (by omega) text⟩

/-- Insertions go beside the tags that are counted to. Given are the start tags of a name, and its
closing tags, over the skeleton pieces in order. Behind the `k`-th start tag, or the last one if
there are fewer, goes the one insertion, and before the `k`-th closing tag from the end, or the first
one if there are fewer, the other. Nothing is inserted just when there is no such tag. -/
theorem insertions_counted {a : Assembly} (hlisted : ∀ i ∈ a.skeleton, i < a.pieces.length)
    (tag : Text) {k : Nat} (hk : 1 ≤ k) (text : Text) :
    (∃ tags,
      (∀ found, Collects Tag.IsStartTag (Tag.startsAs tag) a.pieces a.skeleton found ↔
        found = tags) ∧
      (a.insertAfterStartTag tag k text = none ↔ tags = []) ∧
      ∀ a', a.insertAfterStartTag tag k text = some a' →
        ∃ i mark, CountsTo k tags (i, mark) ∧ a.Inserted i mark.stop text a') ∧
    ∃ tags,
      (∀ found, Collects Tag.IsTag (Tag.closesAs tag) a.pieces a.skeleton found ↔ found = tags) ∧
      (a.insertBeforeClosingTag tag k text = none ↔ tags = []) ∧
      ∀ a', a.insertBeforeClosingTag tag k text = some a' →
        ∃ i mark, CountsTo k tags.reverse (i, mark) ∧ a.Inserted i mark.start text a' := by
  constructor
  · have hspots := a.flatten_spots (Tag.startsAs tag) (Tag.startsOf_eq tag)
    obtain ⟨hnone, hsome⟩ := pickFromStart_counts hk (a.startSpots tag)
    rw [startSpots, hspots] at hnone hsome
    refine ⟨_, fun found => collects_iff Tag.follows_startForm hlisted, ?_, fun a' ha' => ?_⟩
    · rw [insertAfterStartTag, Option.map_eq_none_iff, startSpots, hnone, List.map_eq_nil_iff]
    · obtain ⟨spot, hspot, rfl⟩ := Option.map_eq_some_iff.mp ha'
      exact exists_inserted Tag.follows_startForm hlisted (fun _ => id)
        (fun _ _ => Nat.le_refl _) (hsome spot hspot) text
  · have hspots := a.flatten_spots (Tag.closesAs tag) (Tag.closingsOf_eq_closesAs tag)
    obtain ⟨hnone, hsome⟩ := pickFromEnd_counts hk (a.closingSpots tag)
    rw [closingSpots, hspots] at hnone hsome
    refine ⟨_, fun found => collects_iff Tag.follows_anyForm hlisted, ?_, fun a' ha' => ?_⟩
    · rw [insertBeforeClosingTag, Option.map_eq_none_iff, closingSpots, hspots, hnone,
        List.map_eq_nil_iff]
    · obtain ⟨spot, hspot, rfl⟩ := Option.map_eq_some_iff.mp ha'
      rw [closingSpots, hspots] at hspot
      have hcount := hsome spot hspot
      rw [← List.map_reverse] at hcount
      exact exists_inserted Tag.follows_anyForm hlisted (fun _ => List.mem_reverse.mp)
        (fun _ => Nat.le_of_lt) hcount text

/-- Two skeleton pieces around a region that has tags of its own. -/
def ringed : Assembly := ⟨["<p>", "<p>own</p>", "<P class=\"x\">a</p>b</p>"], [0, 2]⟩

/-- A count past all tags of the skeleton comes to the last start tag and to the first closing tag
in it. -/
theorem insertions_counted_ringed :
    (∀ i ∈ ringed.skeleton, i < ringed.pieces.length) ∧ 1 ≤ 5 ∧
      (∃ tags i mark, Collects Tag.IsStartTag (Tag.startsAs "p") ringed.pieces ringed.skeleton tags ∧
        CountsTo 5 tags (i, mark) ∧ ringed.Inserted i mark.stop "*"
          ⟨["<p>", "<p>own</p>", "<P class=\"x\">*a</p>b</p>"], [0, 2]⟩) ∧
      ∃ tags i mark, Collects Tag.IsTag (Tag.closesAs "p") ringed.pieces ringed.skeleton tags ∧
        CountsTo 5 tags.reverse (i, mark) ∧ ringed.Inserted i mark.start "*"
          ⟨["<p>", "<p>own</p>", "<P class=\"x\">a*</p>b</p>"], [0, 2]⟩ := by
  have hlisted : ∀ i ∈ ringed.skeleton, i < ringed.pieces.length := by decide
  obtain ⟨⟨starts, hstarts, -, hbehind⟩, closings, hclosings, -, hbefore⟩ :=
    insertions_counted hlisted "p" (show 1 ≤ 5 by decide) "*"
  obtain ⟨i, mark, hcount, hinserted⟩ := hbehind _ (by decide +kernel :
    ringed.insertAfterStartTag "p" 5 "*" =
      some ⟨["<p>", "<p>own</p>", "<P class=\"x\">*a</p>b</p>"], [0, 2]⟩)
  obtain ⟨i', mark', hcount', hinserted'⟩ := hbefore _ (by decide +kernel :
    ringed.insertBeforeClosingTag "p" 5 "*" =
      some ⟨["<p>", "<p>own</p>", "<P class=\"x\">a*</p>b</p>"], [0, 2]⟩)
  exact ⟨hlisted, by decide, ⟨starts, i, mark, (hstarts _).mpr rfl, hcount, hinserted⟩,
    closings, i', mark', (hclosings _).mpr rfl, hcount', hinserted'⟩

end Assembly

end Stencil
