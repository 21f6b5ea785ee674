import Stencil.Marker.Body

/-!
# Tags

A tag opens with `<` and a name and runs to the next `>`, whatever stands between. Its name is a
run of word characters, colons and hyphens that begins with a letter and ends with a word
character. Tags are found from left to right and do not overlap, so a closing tag that is never
closed may hide the start tag behind it, while a search for start tags alone still finds it.
-/

namespace Stencil.Tag

def continuesName (g : Glyph) : Bool := g.isWord || g = .char ':' || g = .char '-'

/-- The name of a tag and what follows it; the tag must be closed somewhere behind. -/
def nameAt? (t : Text) : Option (Text × Text) :=
  match t with
  | [] => none
  | g :: rest =>
    if g.isLetter then
      let run := g :: rest.takeWhile continuesName
      let name := (run.reverse.dropWhile fun g => !g.isWord).reverse
      (Text.upTo? (.char '>') (rest.dropWhile continuesName)).map fun (_, after) => (name, after)
    else none

/-- A start tag; reads its name as written. -/
def startForm : Form Text := fun _ t =>
  match t with
  | .char '<' :: rest => nameAt? rest
  | _ => none

/-- A tag of either sort; reads whether it closes, and its name as written. -/
def anyForm : Form (Bool × Text) := fun _ t =>
  match t with
  | .char '<' :: .char '/' :: rest => (nameAt? rest).map fun (name, after) => ((true, name), after)
  | .char '<' :: rest => (nameAt? rest).map fun (name, after) => ((false, name), after)
  | _ => none

/-- The start tags of a text, names in lower case. -/
def starts (t : Text) : List (Found Text) :=
  (startForm.findAll t).map fun found => { found with value := Text.lower found.value }

/-- All tags of a text, names in lower case. -/
def all (t : Text) : List (Found (Bool × Text)) :=
  (anyForm.findAll t).map fun found =>
    { found with value := (found.value.1, Text.lower found.value.2) }

/-- The offsets right behind the start tags of a name. -/
def startsOf (name t : Text) : List Nat :=
  ((starts t).filter fun found => found.value = name).map (·.stop)

/-- The offsets of the closing tags of a name. -/
def closingsOf (name t : Text) : List Nat :=
  ((all t).filter fun found => found.value = (true, name)).map (·.start)

end Stencil.Tag
