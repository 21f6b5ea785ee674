import Stencil.Position

/-!
# Markers

A *marker* is a comment that says something to the tool. Markers of templates and of pages have
the same shapes under different keywords, so a kind is a shape and, for regions and parameters,
the side it belongs to. A page moreover names its template in a *binding*.
-/

namespace Stencil

/-- Which of the two sorts of document a marker belongs to. -/
inductive Side where
  | template
  | page
deriving DecidableEq, Repr

namespace Marker

inductive Kind where
  | regionBegin (side : Side)
  | regionEnd (side : Side)
  | param (side : Side)
  | binding
  | bindingEnd
deriving DecidableEq, Repr

namespace Kind

def all : List Kind :=
  [.regionBegin .template, .regionEnd .template, .regionBegin .page, .regionEnd .page, .binding,
    .bindingEnd, .param .template, .param .page]

/-- The word a marker of this kind opens with. -/
def keyword : Kind → Text
  | .regionBegin .template => "TemplateBeginEditable"
  | .regionEnd .template => "TemplateEndEditable"
  | .regionBegin .page => "InstanceBeginEditable"
  | .regionEnd .page => "InstanceEndEditable"
  | .binding => "InstanceBegin"
  | .bindingEnd => "InstanceEnd"
  | .param .template => "TemplateParam"
  | .param .page => "InstanceParam"

/-- The attribute that names the marker. A marker without one carries no attributes at all. -/
def nameKey? : Kind → Option Text
  | .regionBegin _ | .param _ => some "name"
  | .binding => some "template"
  | .regionEnd _ | .bindingEnd => none

/-- The kind a word opens, in any mixture of upper and lower case. -/
def ofKeyword? (word : Text) : Option Kind :=
  all.find? fun kind => word.map Glyph.asciiLower == kind.keyword.map Glyph.asciiLower

theorem ofKeyword?_keyword (kind : Kind) : ofKeyword? kind.keyword = some kind := by
  rcases kind with side | side | side | _ | _ <;> (try cases side) <;> decide +kernel

/-- The same shape on the page's side. -/
def onPage : Kind → Kind
  | .regionBegin _ => .regionBegin .page
  | .regionEnd _ => .regionEnd .page
  | .param _ => .param .page
  | .binding => .binding
  | .bindingEnd => .bindingEnd

end Kind

/-- Keys in lower case with their values as written, in the order of first appearance. -/
abbrev Attributes := List (Text × Text)

/-- A marker found in a text: what it says, and the glyphs `start` up to `stop` it takes there. -/
structure Token where
  kind : Kind
  name : Text
  span : Range
  start : Nat
  stop : Nat
  raw : Text
  attributes : Attributes
deriving DecidableEq, Repr

namespace Token

/-- The token with these parts, if its offsets are those of a comment somewhere in a text. -/
def make? (kind : Kind) (name : Text) (span : Range) (start stop : Int) (raw : Text)
    (attributes : Attributes) : Except PlaceError Token :=
  if start < 0 then .error .offsetNegative
  else if stop ≤ start then .error .offsetsEmpty
  else .ok ⟨kind, name, span, start.toNat, stop.toNat, raw, attributes⟩

/-- Where the marker begins. -/
def position (token : Token) : Position := token.span.start

def attribute? (token : Token) (key : Text) : Option Text := token.attributes.lookup key

end Token

end Marker

end Stencil
