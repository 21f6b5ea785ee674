import Stencil.Marker.Basic
import Stencil.Text.Case
import Stencil.Text.Search
import Stencil.Unicode.Word

/-!
# What a comment says

The body of a comment is a marker when it opens with a keyword and what follows is what the kind
allows: nothing for the end markers; attributes and blanks, with a name among them, for regions
and parameters; for a binding anything, as long as a `template` attribute can be found in it.
Every other comment says nothing and stays plain text.
-/

namespace Stencil

/-- Characters of words: letters and numbers of every script, and the underscore. -/
def Glyph.isWord (g : Glyph) : Bool := Unicode.isWord g.code

namespace Marker

/-- The first word of a body and what follows it. The word is made of ASCII letters, may have
blanks before it, and must end the body or have a blank behind it. -/
def firstWord? (body : Text) : Option (Text × Text) :=
  let spoken := Text.dropBlanks body
  let word := spoken.takeWhile Glyph.isLetter
  let rest := spoken.dropWhile Glyph.isLetter
  if word.isEmpty then none
  else match rest with
    | [] => some (word, [])
    | g :: _ => if g.isBlank then some (word, rest) else none

def opensKey (g : Glyph) : Bool := g.isLetter || g = .char '_'

def continuesKey (g : Glyph) : Bool :=
  g.isWord || g = .char '.' || g = .char ':' || g = .char '-'

/-- A double-quoted value at the head of a text. -/
def quotedValue? : Text → Option (Text × Text)
  | .char '"' :: t => Text.upTo? (.char '"') t
  | _ => none

/-- An attribute at the head of a text: a key, an equals sign and a double-quoted value, with
blanks allowed around the sign. -/
def attributeForm : Form (Text × Text) := fun _ t =>
  match t with
  | [] => none
  | g :: rest =>
    if opensKey g then
      let key := g :: rest.takeWhile continuesKey
      match Text.dropBlanks (rest.dropWhile continuesKey) with
      | .char '=' :: afterSign =>
        (quotedValue? (Text.dropBlanks afterSign)).map fun (value, rest) => ((key, value), rest)
      | _ => none
    else none

/-- Only the first value of each key counts. -/
def keepFirst : (seen : List Text) → Attributes → Attributes
  | _, [] => []
  | seen, (key, value) :: rest =>
    if key ∈ seen then keepFirst seen rest else (key, value) :: keepFirst (key :: seen) rest

/-- The attributes found from left to right. -/
def readAttributes (t : Text) : Attributes :=
  keepFirst [] ((attributeForm.findAll t).map fun found =>
    (Text.lower found.value.1, found.value.2))

/-- The kind and the attributes of the marker a comment with this body is, if it is one. -/
def classify (body : Text) : Option (Kind × Attributes) := do
  let (word, rest) ← firstWord? body
  let kind ← Kind.ofKeyword? word
  match kind.nameKey? with
  | none => if Text.isBlank rest then some (kind, []) else none
  | some key =>
    let attributes := readAttributes rest
    if (attributes.lookup key).isNone then none
    else if kind = .binding || Text.isBlank (attributeForm.cutAll rest) then
      some (kind, attributes)
    else none

end Marker

end Stencil
