import Stencil.Text.Basic

/-!
# Searching a text for a form

A *form* reads something at the head of a text: an attribute, a tag, a keyword. A search tries a
form at every place from left to right, and goes on behind each match, so matches never overlap.
-/

namespace Stencil

/-- Reads a value at the head of a text, given the glyph before it, and returns what is left. -/
abbrev Form (α : Type) := Option Glyph → Text → Option (α × Text)

/-- A value and the place it was read from: glyphs `start` up to `stop`. -/
structure Found (α : Type) where
  start : Nat
  stop : Nat
  value : α
deriving DecidableEq, Repr

namespace Form

variable {α : Type}

/-- How many glyphs were read of `g :: t` when `rest` is left. -/
def taken (t rest : Text) : Nat := t.length + 1 - rest.length

/-- The matches in a text whose first glyph has offset `place`, the first `skip` glyphs of it being
part of an earlier match. -/
def findFrom (form : Form α) : (skip place : Nat) → Option Glyph → Text → List (Found α)
  | _, _, _, [] => []
  | skip + 1, place, _, g :: t => findFrom form skip (place + 1) (some g) t
  | 0, place, before, g :: t =>
    match form before (g :: t) with
    | some (value, rest) =>
      ⟨place, place + taken t rest, value⟩ ::
        findFrom form (taken t rest - 1) (place + 1) (some g) t
    | none => findFrom form 0 (place + 1) (some g) t

/-- All matches from left to right. -/
def findAll (form : Form α) (t : Text) : List (Found α) := findFrom form 0 0 none t

def cutFrom (form : Form α) : (skip : Nat) → Option Glyph → Text → Text
  | _, _, [] => []
  | skip + 1, _, g :: t => cutFrom form skip (some g) t
  | 0, before, g :: t =>
    match form before (g :: t) with
    | some (_, rest) => cutFrom form (taken t rest - 1) (some g) t
    | none => g :: cutFrom form 0 (some g) t

/-- The text without its matches. -/
def cutAll (form : Form α) (t : Text) : Text := cutFrom form 0 none t

def replaceFirstFrom (form : Form α) (write : α → Text) : Option Glyph → Text → Text
  | _, [] => []
  | before, g :: t =>
    match form before (g :: t) with
    | some (value, rest) => write value ++ rest
    | none => g :: replaceFirstFrom form write (some g) t

/-- The text with its first match written anew. -/
def replaceFirst (form : Form α) (write : α → Text) (t : Text) : Text :=
  replaceFirstFrom form write none t

def firstFrom (form : Form α) : Option Glyph → Text → Option α
  | _, [] => none
  | before, g :: t =>
    match form before (g :: t) with
    | some (value, _) => some value
    | none => firstFrom form (some g) t

/-- What the first match reads. -/
def first? (form : Form α) (t : Text) : Option α := firstFrom form none t

end Form

end Stencil
