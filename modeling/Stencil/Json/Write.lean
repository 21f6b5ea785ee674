import Stencil.Json.Basic
import Stencil.Text.Bytes

/-!
# Writing JSON

Files are written to be read by people: two blanks of indent per level, members sorted by key,
characters as they are, no line feed at the end.
-/

namespace Stencil.Json

/-- How one glyph is written in a string: quotes, backslashes and controls are escaped. -/
def escaped (g : Glyph) : Text :=
  let n := g.code
  if g = .char '"' || g = .char '\\' then [.char '\\', g]
  else if n == 0x08 then [.char '\\', .char 'b']
  else if n == 0x09 then [.char '\\', .char 't']
  else if n == 0x0a then [.char '\\', .char 'n']
  else if n == 0x0c then [.char '\\', .char 'f']
  else if n == 0x0d then [.char '\\', .char 'r']
  else if n < 0x20 then .char '\\' :: .char 'u' :: Text.hexOfNat 4 n
  else [g]

def writeString (t : Text) : Text := .char '"' :: t.flatMap escaped ++ [.char '"']

def indent (level : Nat) : Text := .char '\n' :: List.replicate (2 * level) (.char ' ')

/-- The member before the first one that does not come before it. -/
def insertByKey {α : Type} (member : Text × α) : List (Text × α) → List (Text × α)
  | [] => [member]
  | other :: members =>
    if Text.le member.1 other.1 then member :: other :: members
    else other :: insertByKey member members

/-- Members sorted by key; those with the same key stay in their order. -/
def sortByKey {α : Type} (members : List (Text × α)) : List (Text × α) :=
  members.foldr insertByKey []

mutual

/-- A value whose first line is indented by `level` already. -/
def writeAt (level : Nat) : Json → Text
  | null => "null"
  | bool b => if b then "true" else "false"
  | int n => .ofInt n
  | float x => x.shown
  | string t => writeString t
  | array [] => "[]"
  | array items =>
    let between := .char ',' :: indent (level + 1)
    Text.concat ["[", indent (level + 1), Text.join between (writeItems (level + 1) items),
      indent level, "]"]
  | object [] => "\x7b\x7d"
  | object members =>
    let between := .char ',' :: indent (level + 1)
    let lines := (sortByKey (writeMembers (level + 1) members)).map fun (key, value) =>
      Text.concat [writeString key, ": ", value]
    Text.concat ["\x7b", indent (level + 1), Text.join between lines, indent level, "\x7d"]

def writeItems (level : Nat) : List Json → List Text
  | [] => []
  | item :: items => writeAt level item :: writeItems level items

def writeMembers (level : Nat) : List (Text × Json) → List (Text × Text)
  | [] => []
  | (key, value) :: members => (key, writeAt level value) :: writeMembers level members

end

def write (value : Json) : Text := writeAt 0 value

/-- The bytes of a file with this value. A stray byte has no place in one. -/
def writeBytes? (value : Json) : Option Bytes :=
  let t := write value
  if t.isPlain then some t.encode else none

end Stencil.Json
