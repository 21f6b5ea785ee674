import Stencil.Text.Basic

/-!
# Positions and ranges

A place in a text is a line and a column, both counted from zero, and a line begins after each
line feed. Ranges are half open. Whoever builds one from numbers of their own goes through the
checked constructors, which refuse negative places and ranges that end before they start.
-/

namespace Stencil

structure Position where
  line : Nat
  character : Nat
deriving DecidableEq, Repr

/-- Why a place, a range or a token is refused. -/
inductive PlaceError where
  | negative (line character : Int)
  | reversed (start stop : Position)
  | offsetNegative
  | offsetsEmpty
deriving DecidableEq, Repr

namespace Position

/-- Places are ordered by line, then by column. -/
instance : LT Position :=
  ⟨fun a b => a.line < b.line ∨ (a.line = b.line ∧ a.character < b.character)⟩

instance : LE Position :=
  ⟨fun a b => a.line < b.line ∨ (a.line = b.line ∧ a.character ≤ b.character)⟩

instance (a b : Position) : Decidable (a < b) :=
  inferInstanceAs (Decidable (a.line < b.line ∨ (a.line = b.line ∧ a.character < b.character)))

instance (a b : Position) : Decidable (a ≤ b) :=
  inferInstanceAs (Decidable (a.line < b.line ∨ (a.line = b.line ∧ a.character ≤ b.character)))

/-- The place with these coordinates, if neither is negative. -/
def make? : (line character : Int) → Except PlaceError Position
  | .ofNat line, .ofNat character => .ok ⟨line, character⟩
  | line, character => .error (.negative line character)

def sort (ps : List Position) : List Position := ps.mergeSort fun a b => decide (a ≤ b)

/-- Its fields by name, as messages show it. -/
def shown (p : Position) : Text :=
  Text.concat ["Position(line=", .ofNat p.line, ", character=", .ofNat p.character, ")"]

/-- The offsets right behind each line feed of a text that begins at offset `place`. -/
def startsBehind (place : Nat) : Text → List Nat
  | [] => []
  | g :: t =>
    if g = .char '\n' then (place + 1) :: startsBehind (place + 1) t
    else startsBehind (place + 1) t

/-- The offset at which each line begins. The first begins at zero, whatever the text. -/
def lineStarts (t : Text) : List Nat := 0 :: startsBehind 0 t

/-- The number of the line that holds an offset: the last one that begins at or before it. -/
def lineOf (starts : List Nat) (offset : Int) : Nat :=
  starts.countP (fun (start : Nat) => decide ((start : Int) ≤ offset)) - 1

/-- The place of an offset in a text whose lines begin at `starts`. -/
def ofOffset? (starts : List Nat) (offset : Int) : Except PlaceError Position :=
  let line := lineOf starts offset
  make? line (offset - (starts[line]?.getD 0 : Nat))

/-- The place of an offset that is known not to be negative. -/
def ofOffset (starts : List Nat) (offset : Nat) : Position :=
  let line := lineOf starts offset
  ⟨line, offset - starts[line]?.getD 0⟩

end Position

/-- The places from `start` on and before `stop`. -/
structure Range where
  start : Position
  stop : Position
deriving DecidableEq, Repr

namespace Range

def make? (start stop : Position) : Except PlaceError Range :=
  if stop < start then .error (.reversed start stop) else .ok ⟨start, stop⟩

def isEmpty (r : Range) : Bool := r.start = r.stop

def contains (r : Range) (p : Position) : Bool := r.start ≤ p && p < r.stop

def containsRange (r s : Range) : Bool := r.start ≤ s.start && s.stop ≤ r.stop

def intersects (r s : Range) : Bool := r.start < s.stop && s.start < r.stop

end Range

def PlaceError.message : PlaceError → Text
  | .negative line character =>
    Text.concat ["Position must be non-negative, got (", .ofInt line, ", ", .ofInt character, ")"]
  | .reversed start stop =>
    Text.concat ["Range end ", stop.shown, " is before start ", start.shown]
  | .offsetNegative => "offset_start must be >= 0"
  | .offsetsEmpty => "offset_end must be > offset_start"

end Stencil
