import Stencil.Skeleton
import Stencil.Tag

/-!
# Assembling a page

A page under construction is a list of pieces, some laid down as skeleton and some as region
content. The indexes of the skeleton pieces are noted when the pieces are laid, and only those
pieces are searched for tags, so that an insertion never lands in the content of a region.
-/

namespace Stencil

structure Assembly where
  pieces : List Text
  skeleton : List Nat
deriving DecidableEq, Repr

/-- A place in an assembly: a piece and an offset in it. -/
structure Spot where
  piece : Nat
  offset : Nat
deriving DecidableEq, Repr

namespace Assembly

def empty : Assembly := ⟨[], []⟩

def addSkeleton (a : Assembly) (text : Text) : Assembly :=
  ⟨a.pieces ++ [text], a.skeleton ++ [a.pieces.length]⟩

def addRegion (a : Assembly) (text : Text) : Assembly := { a with pieces := a.pieces ++ [text] }

def text (a : Assembly) : Text := a.pieces.flatten

/-- A piece in front of all others. The noted indexes stay as they are. -/
def prepend (a : Assembly) (piece : Text) : Assembly := { a with pieces := piece :: a.pieces }

def append (a : Assembly) (piece : Text) : Assembly := { a with pieces := a.pieces ++ [piece] }

@[simp] theorem text_addSkeleton (a : Assembly) (text : Text) :
    (a.addSkeleton text).text = a.text ++ text := by
  simp [addSkeleton, Assembly.text]

@[simp] theorem text_addRegion (a : Assembly) (text : Text) :
    (a.addRegion text).text = a.text ++ text := by
  simp [addRegion, Assembly.text]

@[simp] theorem text_prepend (a : Assembly) (piece : Text) :
    (a.prepend piece).text = piece ++ a.text := rfl

@[simp] theorem text_append (a : Assembly) (piece : Text) :
    (a.append piece).text = a.text ++ piece := by
  simp [append, Assembly.text]

/-- Writes a text into a piece. -/
def insertAt (a : Assembly) (spot : Spot) (text : Text) : Assembly :=
  { a with
    pieces := a.pieces.modify spot.piece fun piece =>
      piece.take spot.offset ++ text ++ piece.drop spot.offset }

/-- For each skeleton piece in order, the spots that `find` gives in it. -/
def spots (a : Assembly) (find : Text → List Nat) : List (List Spot) :=
  a.skeleton.map fun i => (find (a.pieces[i]?.getD [])).map fun offset => ⟨i, offset⟩

/-- The spots right behind the start tags of a name. -/
def startSpots (a : Assembly) (tag : Text) : List (List Spot) := a.spots (Tag.startsOf tag)

/-- The spots right before the closing tags of a name. -/
def closingSpots (a : Assembly) (tag : Text) : List Spot := (a.spots (Tag.closingsOf tag)).flatten

/-- The spot counted from the first, or the last one when there are fewer. The count is looked at
whenever a tag or a piece is done, so zero is reached where the first piece holds no tag, and a
negative count never is. -/
def pickFromStart (groups : List (List Spot)) (occurrence : Int) : Option Spot :=
  if occurrence = 0 ∧ (groups.head?.getD []).isEmpty then none
  else if 0 < occurrence ∧ occurrence ≤ groups.flatten.length then
    groups.flatten[(occurrence - 1).toNat]?
  else groups.flatten.getLast?

/-- The spot counted from the last, or the first one when there are fewer. -/
def pickFromEnd (spots : List Spot) (occurrence : Int) : Option Spot :=
  spots[(spots.length - occurrence).toNat]?

/-- Writes a text behind the start tag of a name and count; nothing if there is no such tag. -/
def insertAfterStartTag (a : Assembly) (tag : Text) (occurrence : Int) (text : Text) :
    Option Assembly :=
  (pickFromStart (a.startSpots tag) occurrence).map (a.insertAt · text)

/-- Writes a text before the closing tag of a name and count from the end; nothing if there is no
such tag. -/
def insertBeforeClosingTag (a : Assembly) (tag : Text) (occurrence : Int) (text : Text) :
    Option Assembly :=
  (pickFromEnd (a.closingSpots tag) occurrence).map (a.insertAt · text)

/-- Counting from the end starts at one; a smaller count points behind the last closing tag. -/
def countOK (a : Assembly) (tag : Text) (occurrence : Int) : Bool :=
  0 < occurrence || (a.closingSpots tag).isEmpty

end Assembly

/-- Where a binding comment stands: beside which tag, the how-manieth of its name, and with which
blanks between. Without a tag it stands at the very edge of the text. -/
structure Anchor where
  tag? : Option Text
  occurrence : Int
  gap : Text
deriving DecidableEq, Repr

namespace Assembly

def htmlTag : Text := "html"

/-- Puts a binding behind its anchor; without that tag, behind the first `html` tag; without that
too, at the very start. -/
def placeBinding (a : Assembly) (raw : Text) (anchor : Anchor) : Assembly :=
  match anchor.tag? with
  | none => a.prepend (anchor.gap ++ raw)
  | some tag =>
    match a.insertAfterStartTag tag anchor.occurrence (anchor.gap ++ raw) with
    | some placed => placed
    | none =>
      if tag = htmlTag then a.prepend raw
      else (a.insertAfterStartTag htmlTag 1 raw).getD (a.prepend raw)

/-- Puts the end of a binding before its anchor; without that tag, before the last closing `html`
tag; without that too, at the very end. -/
def placeBindingEnd (a : Assembly) (raw : Text) (anchor : Anchor) : Assembly :=
  match anchor.tag? with
  | none => a.append (raw ++ anchor.gap)
  | some tag =>
    match a.insertBeforeClosingTag tag anchor.occurrence (raw ++ anchor.gap) with
    | some placed => placed
    | none =>
      if tag = htmlTag then a.append raw
      else (a.insertBeforeClosingTag htmlTag 1 raw).getD (a.append raw)

/-- Whether the count of an anchor for a closing tag can be followed. -/
def anchorOK (a : Assembly) (anchor : Anchor) : Bool :=
  match anchor.tag? with
  | none => true
  | some tag => a.countOK tag anchor.occurrence

end Assembly

end Stencil
