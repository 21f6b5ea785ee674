import Stencil.Binary64
import Stencil.Text.Quoted

/-!
# JSON values

A value keeps what was written: whole numbers apart from numbers with a fraction or an exponent,
and the members of an object in their order. A key that is written again keeps its first place
and takes its last value.
-/

namespace Stencil

inductive Json where
  | null
  | bool (b : Bool)
  | int (n : Int)
  | float (x : Binary64)
  | string (t : Text)
  | array (items : List Json)
  | object (members : List (Text × Json))

namespace Json

/-- The members with `key` set to `value`. -/
def setMember (key : Text) (value : Json) : List (Text × Json) → List (Text × Json)
  | [] => [(key, value)]
  | (k, v) :: rest => if k = key then (k, value) :: rest else (k, v) :: setMember key value rest

def member? (key : Text) : Json → Option Json
  | object members => members.lookup key
  | _ => none

mutual

/-- A value as messages show it: strings quoted, the two truth values and null capitalised. -/
def shown : Json → Text
  | null => "None"
  | bool b => if b then "True" else "False"
  | int n => .ofInt n
  | float x => x.shown
  | string t => t.quoted
  | array items => Text.concat ["[", shownItems items, "]"]
  | object members => Text.concat ["\x7b", shownMembers members, "\x7d"]

def shownItems : List Json → Text
  | [] => []
  | [item] => shown item
  | item :: items => Text.concat [shown item, ", ", shownItems items]

def shownMembers : List (Text × Json) → Text
  | [] => []
  | [(key, value)] => Text.concat [key.quoted, ": ", shown value]
  | (key, value) :: members =>
    Text.concat [key.quoted, ": ", shown value, ", ", shownMembers members]

end

/-- A value taken as text: a string is itself, anything else is as messages show it. -/
def asText : Json → Text
  | string t => t
  | value => value.shown

end Json

end Stencil
