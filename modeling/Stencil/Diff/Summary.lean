import Stencil.Diff.Hunk
import Stencil.Merge

/-!
# What the user sees before deciding

The hunks of a proposed change, and a line for each region saying what becomes of it. Regions are
reported under the labels of their statuses; a report knows four labels and refuses others.
-/

namespace Stencil

def RegionStatus.label : RegionStatus → Text
  | .unchanged => "unchanged"
  | .contentKept => "content_kept"
  | .added => "added"
  | .removed => "removed"

/-- A region and the label of its status. -/
structure ReportLine where
  name : Text
  label : Text
deriving DecidableEq, Repr

/-- A label that no report knows. -/
structure UnknownLabel where
  label : Text
deriving DecidableEq, Repr

namespace ReportLine

def ofChange (change : Change) : ReportLine := ⟨change.name, change.status.label⟩

def mark? (label : Text) : Option Char :=
  [(RegionStatus.unchanged, '='), (.contentKept, '~'), (.added, '+'), (.removed, '-')].findSome?
    fun (status, mark) => if status.label = label then some mark else none

/-- The mark of the status, the name, and the label in words. -/
def describe (line : ReportLine) : Except UnknownLabel Text :=
  match mark? line.label with
  | none => .error ⟨line.label⟩
  | some mark =>
    let words := line.label.map fun g => if g = .char '_' then .char ' ' else g
    .ok (Text.concat ["  ", [.char mark], " ", line.name, " (", words, ")"])

/-- One line per region; the first unknown label is the error. -/
def describeAll (lines : List ReportLine) : Except UnknownLabel Text :=
  (lines.mapM describe).map (Text.join "\n")

end ReportLine

structure DiffSummary where
  path : Text
  hunks : List Hunk
  report : List ReportLine
deriving DecidableEq, Repr

namespace DiffSummary

def make (path old new : Text) (context : Nat) (report : List ReportLine) : DiffSummary :=
  ⟨path, Diff.hunks context old new, report⟩

/-- How many lines of the hunks begin with a sign. -/
def countSigned (sign : Char) (summary : DiffSummary) : Nat :=
  (summary.hunks.flatMap (·.lines)).countP fun line => line.head? = some (.char sign)

def added (summary : DiffSummary) : Nat := summary.countSigned '+'

def removed (summary : DiffSummary) : Nat := summary.countSigned '-'

def hasChanges (summary : DiffSummary) : Bool := !summary.hunks.isEmpty

/-- The hunks under the names of the two versions, without colour. -/
def renderHunks (summary : DiffSummary) : Text :=
  if summary.hunks.isEmpty then []
  else
    Text.join "\n" (Text.concat ["--- ", summary.path, " (original)"] ::
      Text.concat ["+++ ", summary.path, " (updated)"] ::
        summary.hunks.flatMap fun hunk => hunk.header :: hunk.lines)

/-- The hunks, then the report on the regions; an empty part takes no line. -/
def render (summary : DiffSummary) : Except UnknownLabel Text :=
  (ReportLine.describeAll summary.report).map fun report =>
    Text.join "\n" ([summary.renderHunks, report].filter fun part => !part.isEmpty)

end DiffSummary

end Stencil
