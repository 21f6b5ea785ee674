import Stencil.Marker.Basic

/-!
# Documents

A template and a page are the same thing seen from two sides: a text cut into literal stretches
and named editable regions. The marker comments belong to the literals, so that joining the
segments gives the text back.
-/

namespace Stencil

inductive Segment where
  | literal (text : Text)
  | region (name content : Text) (span : Range)
deriving DecidableEq, Repr

namespace Segment

def text : Segment → Text
  | literal text => text
  | region _ content _ => content

def isRegion : Segment → Bool
  | literal _ => false
  | region .. => true

/-- The text the segments were cut from. -/
def join (segments : List Segment) : Text := segments.flatMap text

@[simp] theorem join_nil : join [] = [] := rfl

@[simp] theorem join_cons (segment : Segment) (segments : List Segment) :
    join (segment :: segments) = segment.text ++ join segments := rfl

@[simp] theorem join_append (segments others : List Segment) :
    join (segments ++ others) = join segments ++ join others := by
  simp [join]

/-- The names of the regions, in order. -/
def regionNames (segments : List Segment) : List Text :=
  segments.filterMap fun
    | literal _ => none
    | region name _ _ => some name

/-- The regions with their contents, in order. -/
def contents (segments : List Segment) : List (Text × Text) :=
  segments.filterMap fun
    | literal _ => none
    | region name content _ => some (name, content)

/-- The first region with a name. -/
def region? (segments : List Segment) (name : Text) : Option Text := (contents segments).lookup name

end Segment

/-- A parameter that a template declares or a page sets. -/
structure Param where
  name : Text
  type : Text
  value : Text
deriving DecidableEq, Repr

structure Template where
  source : Text
  text : Text
  segments : List Segment
  params : List Param
deriving DecidableEq, Repr

/-- A page is bound to its template by the first binding in it. -/
structure Page where
  source : Text
  text : Text
  binding : Marker.Token
  bindingEnd? : Option Marker.Token
  segments : List Segment
  params : List Param
deriving DecidableEq, Repr

/-- The last component of a template reference. Backslashes separate components too; empty ones
and single dots do not count. -/
def templateBasename (reference : Text) : Text :=
  let slashed := reference.map fun g => if g = .char '\\' then .char '/' else g
  (((Text.splitOn (.char '/') slashed).filter fun part =>
    !part.isEmpty && part ≠ [.char '.']).getLast?).getD []

namespace Page

/-- The reference the page is bound to, as written. -/
def templateRef (page : Page) : Text := page.binding.name

def templateName (page : Page) : Text := templateBasename page.templateRef

end Page

end Stencil
