import Stencil.Text.Basic

/-!
# Paths

A path is a list of components, counted from a root when it is absolute. Empty components and
single dots are dropped when a path is read; double dots stay until the path is resolved.
-/

namespace Stencil

/-- Where the components of a path are counted from. Exactly two slashes in front are a root of
their own. -/
inductive Root where
  | none
  | slash
  | doubleSlash
deriving DecidableEq, Repr

structure Path where
  root : Root
  parts : List Text
deriving DecidableEq, Repr

namespace Path

def slash : Glyph := .char '/'

def rootOf : Text → Root
  | .char '/' :: .char '/' :: .char '/' :: _ => .slash
  | .char '/' :: .char '/' :: _ => .doubleSlash
  | .char '/' :: _ => .slash
  | _ => .none

/-- Reads a path. -/
def ofText (t : Text) : Path :=
  ⟨rootOf t, (Text.splitOn slash t).filter fun part => !part.isEmpty && part ≠ [.char '.']⟩

/-- A path with nothing in it is written as a dot. -/
def text (p : Path) : Text :=
  match p.root, p.parts with
  | .none, [] => "."
  | .none, parts => Text.join "/" parts
  | .slash, parts => "/" ++ Text.join "/" parts
  | .doubleSlash, parts => "//" ++ Text.join "/" parts

def isAbsolute (p : Path) : Bool := p.root ≠ .none

/-- The second path seen from the first. -/
def join (p q : Path) : Path := if q.isAbsolute then q else ⟨p.root, p.parts ++ q.parts⟩

/-- A path one component longer; the name may itself be a path. -/
def child (p : Path) (name : Text) : Path := p.join (ofText name)

/-- The last component, or nothing at a root. -/
def name (p : Path) : Text := p.parts.getLast?.getD []

def parent (p : Path) : Path := { p with parts := p.parts.dropLast }

def withName (p : Path) (name : Text) : Path := { p with parts := p.parts.dropLast ++ [name] }

/-- The components of a path behind those of a path above it. -/
def below? (above p : Path) : Option (List Text) :=
  if above.root = p.root then above.parts.isPrefixOf? p.parts else none

/-- Components as text, a dot when there are none. -/
def relativeText (parts : List Text) : Text := (Path.mk .none parts).text

def parentName : Text := ".."

/-- Each double dot taken together with the component before it; at a root it leads nowhere. -/
def collapse : (above : List Text) → List Text → List Text
  | above, [] => above
  | above, part :: parts =>
    if part = parentName then collapse above.dropLast parts else collapse (above ++ [part]) parts

/-- An absolute path without double dots. -/
def normalize (p : Path) : Path := ⟨.slash, collapse [] p.parts⟩

end Path

end Stencil
