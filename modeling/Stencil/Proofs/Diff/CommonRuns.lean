import Stencil.Diff.Align

/-!
# Longest common runs

What the two sides of an alignment have in common begins at a pair of places, and goes on as far as the
lines there agree (`common`). The tables of the alignment hold these lengths (`isRow_longestFrom`), so the
run found is one of them and none is longer (`isLongest_longest`). Hence the chunks of an alignment make up
both sides (`flatMap_align`), and those of a list with itself do not differ (`align_self`).
-/

namespace Stencil.Diff

/-- How many lines agree from the beginning. -/
def common : List Text → List Text → Nat
  | x :: xs, y :: ys => if x = y then common xs ys + 1 else 0
  | _, _ => 0

@[simp] theorem common_nil (ys : List Text) : common [] ys = 0 := rfl

theorem common_nil_right (xs : List Text) : common xs [] = 0 := by cases xs <;> rfl

theorem common_self (xs : List Text) : common xs xs = xs.length := by
  induction xs with
  | nil => rfl
  | cons x xs ih => rw [common, if_pos rfl, ih, List.length_cons]

theorem common_le (xs ys : List Text) : common xs ys ≤ xs.length ∧ common xs ys ≤ ys.length := by
  induction xs, ys using common.induct with
  | case1 x xs ys ih =>
      rw [common, if_pos rfl, List.length_cons, List.length_cons]
      omega
  | case2 x xs y ys h =>
      rw [common, if_neg h]
      exact ⟨Nat.zero_le _, Nat.zero_le _⟩
  | case3 xs ys h =>
      rw [common]
      · exact ⟨Nat.zero_le _, Nat.zero_le _⟩
      · exact h

theorem take_common (xs ys : List Text) : xs.take (common xs ys) = ys.take (common xs ys) := by
  induction xs, ys using common.induct with
  | case1 x xs ys ih => rw [common, if_pos rfl, List.take_succ_cons, List.take_succ_cons, ih]
  | case2 x xs y ys h => rw [common, if_neg h, List.take_zero, List.take_zero]
  | case3 xs ys h =>
      rw [common]
      · rw [List.take_zero, List.take_zero]
      · exact h

/-! ## Tables -/

/-- The row of a list holds how far it agrees with the other one from each of its places. -/
def IsRow (old new : List Text) (row : List Nat) : Prop :=
  ∀ j, row.getD j 0 = common old (new.drop j)

theorem isRow_runRow {line : Text} {old new : List Text} {next : List Nat}
    (h : IsRow old new next) : IsRow (line :: old) new (runRow line new next) := by
  induction new generalizing next with
  | nil => exact fun j => by rw [runRow, List.drop_nil, common_nil_right, List.getD_nil]
  | cons y new ih =>
      have htail : IsRow old new next.tail := fun j => by
        have hj := h (j + 1)
        rw [List.drop_succ_cons] at hj
        rw [← hj]
        cases next <;> rfl
      intro j
      cases j with
      | succ j => exact ih htail j
      | zero =>
          have hhead : next.tail.headD 0 = common old new := by
            have hzero := htail 0
            rw [List.drop_zero] at hzero
            rw [← hzero]
            cases next.tail <;> rfl
          rw [runRow, List.getD_cons_zero, List.drop_zero, common, hhead]

theorem rowBest_spec (row : List Nat) :
    row.getD (rowBest row).1 0 = (rowBest row).2 ∧ ∀ j, row.getD j 0 ≤ (rowBest row).2 := by
  induction row with
  | nil => exact ⟨rfl, fun j => Nat.le_of_eq (by rw [List.getD_nil, rowBest])⟩
  | cons size row ih =>
      obtain ⟨hplace, hbest⟩ := ih
      rw [rowBest]
      dsimp only
      split
      · next hle =>
        refine ⟨rfl, fun j => ?_⟩
        cases j with
        | zero => exact Nat.le_refl _
        | succ j => exact Nat.le_trans (hbest j) hle
      · next hlt =>
        refine ⟨hplace, fun j => ?_⟩
        cases j with
        | zero => exact Nat.le_of_not_le hlt
        | succ j => exact hbest j

/-- A run that is common to both lists, and that no other one exceeds. -/
structure IsLongest (old new : List Text) (run : Run) : Prop where
  size : run.size = common (old.drop run.oldAt) (new.drop run.newAt)
  greatest : ∀ i j, common (old.drop i) (new.drop j) ≤ run.size

theorem isRow_longestFrom (old new : List Text) :
    IsRow old new (longestFrom new old).1 ∧ IsLongest old new (longestFrom new old).2 := by
  induction old with
  | nil =>
      refine ⟨fun j => by rw [longestFrom, List.getD_nil, common_nil], ⟨rfl, fun i j => ?_⟩⟩
      rw [List.drop_nil, common_nil]
      exact Nat.zero_le _
  | cons line old ih =>
      obtain ⟨hnext, hsize, hgreatest⟩ := ih
      have hrow : IsRow (line :: old) new (runRow line new (longestFrom new old).1) :=
        isRow_runRow hnext
      obtain ⟨hplace, hbest⟩ := rowBest_spec (runRow line new (longestFrom new old).1)
      refine ⟨hrow, ?_⟩
      rw [longestFrom]
      dsimp only
      split
      · next hle =>
        refine ⟨hplace.symm.trans (hrow _), fun i j => ?_⟩
        cases i with
        | zero => exact hrow j ▸ hbest j
        | succ i => exact Nat.le_trans (hgreatest i j) hle
      · next hlt =>
        refine ⟨hsize, fun i j => ?_⟩
        cases i with
        | zero => exact Nat.le_trans (hrow j ▸ hbest j) (Nat.le_of_not_le hlt)
        | succ i => exact hgreatest i j

theorem isLongest_longest (old new : List Text) : IsLongest old new (longest old new) :=
  (isRow_longestFrom old new).2

/-- Around a common run both lists fall into what stands before it, the run, and what stands behind. -/
theorem IsLongest.take_drop {old new : List Text} {run : Run} (h : IsLongest old new run) :
    old.take run.oldAt ++ ((old.drop run.oldAt).take run.size ++
        old.drop (run.oldAt + run.size)) = old ∧
      new.take run.newAt ++ ((old.drop run.oldAt).take run.size ++
        new.drop (run.newAt + run.size)) = new := by
  have hagree : (old.drop run.oldAt).take run.size = (new.drop run.newAt).take run.size := by
    rw [h.size]
    exact take_common _ _
  refine ⟨?_, ?_⟩
  · rw [← List.drop_drop, List.take_append_drop, List.take_append_drop]
  · rw [hagree, ← List.drop_drop, List.take_append_drop, List.take_append_drop]

/-! ## Alignments -/

theorem flatMap_differing (old new : List Text) :
    (differing old new).flatMap Chunk.old = old ∧ (differing old new).flatMap Chunk.new = new := by
  rw [differing]
  split
  · next h =>
    obtain ⟨hold, hnew⟩ := (Bool.and_eq_true _ _).mp h
    rw [List.isEmpty_iff.mp hold, List.isEmpty_iff.mp hnew]
    exact ⟨rfl, rfl⟩
  · simp [Chunk.old, Chunk.new]

theorem flatMap_align (old new : List Text) :
    (align old new).flatMap Chunk.old = old ∧ (align old new).flatMap Chunk.new = new := by
  induction old, new using align.induct with
  | case1 old new oldAt newAt size hrun hsize ihBefore ihBehind =>
      obtain ⟨hold, hnew⟩ := (hrun ▸ isLongest_longest old new).take_drop
      rw [align, hrun]
      dsimp only
      rw [dif_pos hsize, List.flatMap_append, List.flatMap_append, List.flatMap_cons,
        List.flatMap_cons, ihBefore.1, ihBefore.2, ihBehind.1, ihBehind.2]
      exact ⟨hold, hnew⟩
  | case2 old new oldAt newAt size hrun hsize =>
      rw [align, hrun]
      dsimp only
      rw [dif_neg hsize]
      exact flatMap_differing old new

theorem align_nil : align [] [] = [] := by
  rw [align]
  rfl

/-- A list differs nowhere from itself. -/
theorem align_self {lines : List Text} (h : lines ≠ []) : align lines lines = [.same lines] := by
  obtain ⟨hsize, hgreatest⟩ := isLongest_longest lines lines
  have hpos := List.length_pos_iff.mpr h
  have hall := hgreatest 0 0
  rw [List.drop_zero, common_self] at hall
  obtain ⟨hold, hnew⟩ := common_le (lines.drop (longest lines lines).oldAt)
    (lines.drop (longest lines lines).newAt)
  rw [← hsize, List.length_drop] at hold hnew
  -- a run as long as the list has no other place in it than the beginning
  have hrun : longest lines lines = ⟨0, 0, lines.length⟩ := by
    rcases hlongest : longest lines lines with ⟨oldAt, newAt, size⟩
    rw [hlongest] at hall hold hnew
    dsimp only at hall hold hnew
    simp only [Run.mk.injEq]
    omega
  rw [align, hrun]
  dsimp only
  rw [dif_pos ⟨hpos, hpos⟩, List.take_zero, align_nil, List.drop_zero, List.take_length,
    Nat.zero_add, List.drop_length, align_nil, List.nil_append]

end Stencil.Diff
