import Stencil.Text.Lines

/-!
# Aligning two lists of lines

Two lists are aligned around their longest common run: what stands before it on both sides is
aligned in the same way, and so is what stands behind it. Where nothing is in common, the two
sides differ. Joining the old sides of the chunks gives the old lines back, and joining the new
sides the new ones.
-/

namespace Stencil.Diff

/-- Lines that both sides have, or lines of one side in place of lines of the other. -/
inductive Chunk where
  | same (lines : List Text)
  | differ (old new : List Text)
deriving DecidableEq, Repr

namespace Chunk

def old : Chunk → List Text
  | same lines => lines
  | differ old _ => old

def new : Chunk → List Text
  | same lines => lines
  | differ _ new => new

end Chunk

/-- A common run: where it begins on either side, and its length. -/
structure Run where
  oldAt : Nat
  newAt : Nat
  size : Nat
deriving DecidableEq, Repr

/-- For each place of the new lines, the length of the run that begins there and at `line`, given
these lengths for the old line behind it. -/
def runRow (line : Text) : List Text → List Nat → List Nat
  | [], _ => []
  | other :: new, next =>
    (if line = other then next.tail.headD 0 + 1 else 0) :: runRow line new next.tail

/-- The first of the greatest lengths in a row. -/
def rowBest : List Nat → Nat × Nat
  | [] => (0, 0)
  | size :: row =>
    let (place, best) := rowBest row
    if best ≤ size then (0, size) else (place + 1, best)

/-- The row of the first old line, and the longest run; of equally long ones the first in the old
lines, and of those the first in the new ones. -/
def longestFrom (new : List Text) : List Text → List Nat × Run
  | [] => ([], ⟨0, 0, 0⟩)
  | line :: old =>
    let (next, best) := longestFrom new old
    let row := runRow line new next
    let (place, size) := rowBest row
    (row, if best.size ≤ size then ⟨0, place, size⟩ else { best with oldAt := best.oldAt + 1 })

def longest (old new : List Text) : Run := (longestFrom new old).2

/-- The chunks of lists that have nothing in common. -/
def differing (old new : List Text) : List Chunk :=
  if old.isEmpty && new.isEmpty then [] else [.differ old new]

def align (old new : List Text) : List Chunk :=
  match longest old new with
  | ⟨oldAt, newAt, size⟩ =>
    if _h : 0 < size ∧ oldAt < old.length then
      align (old.take oldAt) (new.take newAt) ++
        .same ((old.drop oldAt).take size) ::
          align (old.drop (oldAt + size)) (new.drop (newAt + size))
    else differing old new
termination_by old.length
decreasing_by
  · simp only [List.length_take]; omega
  · simp only [List.length_drop]; omega

end Stencil.Diff
