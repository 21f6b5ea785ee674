import Stencil.Document.Basic
import Stencil.Document.Fault
import Stencil.Marker.Scan

/-!
# Cutting a text into segments

The region markers of a document's own side must alternate, begin and end, with names that do not
repeat. Markers of the other side are literal text: a template may carry page markers, and the
content of a page may carry template markers.
-/

namespace Stencil

open Marker (Token)

namespace Segment

/-- A literal stretch, unless it would be empty. -/
def literals (text : Text) : List Segment := if text.isEmpty then [] else [.literal text]

/-- The segments from offset `cursor` on, given the names met so far, the region that is open, and
the markers still to come. -/
def buildFrom (side : Side) (text : Text) (seen : List Text) (cursor : Nat) :
    Option Token → List Token → Except Fault (List Segment)
  | none, [] => .ok (literals (text.drop cursor))
  | some opened, [] => .error (.unterminated opened.name opened.position)
  | none, token :: tokens =>
    if token.kind = .regionBegin side then
      if token.name ∈ seen then .error (.duplicate token.name token.position)
      else buildFrom side text seen cursor (some token) tokens
    else if token.kind = .regionEnd side then .error (.danglingEnd token.position)
    else buildFrom side text seen cursor none tokens
  | some opened, token :: tokens =>
    if token.kind = .regionBegin side then
      .error (.nested token.name opened.name token.position)
    else if token.kind = .regionEnd side then
      (buildFrom side text (opened.name :: seen) token.start none tokens).map fun rest =>
        literals (text.slice cursor opened.stop) ++
          .region opened.name (text.slice opened.stop token.start)
            ⟨opened.span.stop, token.position⟩ :: rest
    else buildFrom side text seen cursor (some opened) tokens

def build (side : Side) (text : Text) (tokens : List Token) : Except Fault (List Segment) :=
  buildFrom side text [] 0 none tokens

end Segment

namespace Param

/-- What a parameter marker declares; a type not given is `text`, a value not given is empty. -/
def ofToken (token : Token) : Param :=
  ⟨token.name, (token.attribute? "type").getD "text", (token.attribute? "value").getD []⟩

/-- The parameters of one side, each name as it is first declared. -/
def collectFrom (side : Side) (seen : List Text) : List Token → List Param
  | [] => []
  | token :: tokens =>
    if token.kind = .param side ∧ token.name ∉ seen then
      ofToken token :: collectFrom side (token.name :: seen) tokens
    else collectFrom side seen tokens

def collect (side : Side) (tokens : List Token) : List Param := collectFrom side [] tokens

end Param

/-- Reads a text as a template. -/
def Template.build (text source : Text) : Except Fault Template :=
  let tokens := Marker.scan text
  (Segment.build .template text tokens).map fun segments =>
    ⟨source, text, segments, Param.collect .template tokens⟩

namespace Page

/-- Whether a marker is part of a region of a page. -/
def marksRegion (token : Token) : Bool :=
  token.kind = .regionBegin .page || token.kind = .regionEnd .page

/-- The binding of a page, which must come before its first region marker. -/
def bindingOf (tokens : List Token) : Except Fault Token :=
  match Marker.firstBinding? tokens with
  | none => .error .unbound
  | some binding =>
    match tokens.find? marksRegion with
    | some first =>
      if first.start < binding.start then .error (.boundLate first.position) else .ok binding
    | none => .ok binding

/-- The first end of a binding that comes after the binding. -/
def bindingEndOf? (binding : Token) (tokens : List Token) : Option Token :=
  tokens.find? fun token => token.kind = .bindingEnd && binding.start < token.start

/-- Reads a text as a page. -/
def build (text source : Text) : Except Fault Page :=
  let tokens := Marker.scan text
  match bindingOf tokens with
  | .error fault => .error fault
  | .ok binding =>
    (Segment.build .page text tokens).map fun segments =>
      ⟨source, text, binding, bindingEndOf? binding tokens, segments, Param.collect .page tokens⟩

end Page

end Stencil
