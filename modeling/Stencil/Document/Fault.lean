import Stencil.Position
import Stencil.Text.Quoted

/-!
# Faults of documents

Why the markers of a text do not make a document. A fault is met file by file and never stops
more than the file it was found in.
-/

namespace Stencil

inductive Fault where
  /-- A region that is still open at the end of the text. -/
  | unterminated (name : Text) (position : Position)
  /-- An end marker where no region is open. -/
  | danglingEnd (position : Position)
  /-- A region that begins inside the region `outer`. -/
  | nested (name outer : Text) (position : Position)
  | duplicate (name : Text) (position : Position)
  /-- A page that names no template. -/
  | unbound
  /-- A page whose binding comes after its first region marker. -/
  | boundLate (position : Position)
deriving DecidableEq, Repr

/-- What a report says about a fault. -/
structure Finding where
  reason : Text
  name : Text
  position? : Option Position
  detail : Text
deriving DecidableEq, Repr

/-- The reason in words, then the name, the place counted from one, and the detail, each left out
when there is none. -/
def Finding.message (f : Finding) : Text :=
  let reason := f.reason.map fun g => if g = .char '_' then .char ' ' else g
  let subject := if f.name.isEmpty then [] else Text.concat [" ", f.name.quoted]
  let place := match f.position? with
    | none => []
    | some p =>
      Text.concat [" at line ", .ofNat (p.line + 1), ", column ", .ofNat (p.character + 1)]
  let extra := if f.detail.isEmpty then [] else Text.concat [" (", f.detail, ")"]
  Text.concat [reason, subject, place, extra]

namespace Fault

def finding : Fault → Finding
  | unterminated name position => ⟨"unterminated_region", name, some position, []⟩
  | danglingEnd position => ⟨"dangling_end_marker", [], some position, []⟩
  | nested name outer position =>
    ⟨"nested_region", name, some position, Text.concat ["opened inside region ", outer.quoted]⟩
  | duplicate name position => ⟨"duplicate_region_name", name, some position, []⟩
  | unbound => ⟨"missing_binding", [], none, "no InstanceBegin template= comment"⟩
  | boundLate position =>
    ⟨"missing_binding", [], some position,
      "InstanceBegin appears after the first editable region"⟩

def message (fault : Fault) : Text := fault.finding.message

end Fault

end Stencil
