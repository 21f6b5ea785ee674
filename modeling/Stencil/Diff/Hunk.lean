import Stencil.Diff.Align

/-!
# Hunks

Differences are shown in hunks with a few common lines around them. A stretch of common lines that
is longer than twice the context ends one hunk and begins the next; at the ends of the text only
the lines next to a difference are kept. Lines are compared with their breaks and shown without.
-/

namespace Stencil

/-- A group of differences. Starts count from one, or name the line before when there are none. -/
structure Hunk where
  oldStart : Nat
  oldLines : Nat
  newStart : Nat
  newLines : Nat
  lines : List Text
deriving DecidableEq, Repr

namespace Diff

/-- A chunk with the number of lines before it on either side. -/
structure Piece where
  oldAt : Nat
  newAt : Nat
  chunk : Chunk
deriving DecidableEq, Repr

namespace Piece

def oldStop (p : Piece) : Nat := p.oldAt + p.chunk.old.length

def newStop (p : Piece) : Nat := p.newAt + p.chunk.new.length

/-- Of common lines only the last `n`. -/
def keepLast (n : Nat) (p : Piece) : Piece :=
  match p.chunk with
  | .same lines =>
    let gone := lines.length - n
    ⟨p.oldAt + gone, p.newAt + gone, .same (lines.drop gone)⟩
  | .differ .. => p

/-- Of common lines only the first `n`. -/
def keepFirst (n : Nat) (p : Piece) : Piece :=
  match p.chunk with
  | .same lines => ⟨p.oldAt, p.newAt, .same (lines.take n)⟩
  | .differ .. => p

def isLongSame (n : Nat) (p : Piece) : Bool :=
  match p.chunk with
  | .same lines => n < lines.length
  | .differ .. => false

def isSame (p : Piece) : Bool :=
  match p.chunk with
  | .same _ => true
  | .differ .. => false

end Piece

/-- Chunks with their places, the first behind so many lines. -/
def place (oldAt newAt : Nat) : List Chunk → List Piece
  | [] => []
  | chunk :: chunks =>
    ⟨oldAt, newAt, chunk⟩ ::
      place (oldAt + chunk.old.length) (newAt + chunk.new.length) chunks

/-- Only the context at either end of the text. -/
def trimEnds (context : Nat) (pieces : List Piece) : List Piece :=
  let headed := match pieces with
    | [] => []
    | p :: ps => p.keepLast context :: ps
  match headed.reverse with
  | [] => []
  | p :: ps => (p.keepFirst context :: ps).reverse

/-- The groups of pieces, the first of which begins with `open_`. -/
def groupFrom (context : Nat) (opened : List Piece) : List Piece → List (List Piece)
  | [] => if opened.all Piece.isSame then [] else [opened]
  | p :: ps =>
    if p.isLongSame (2 * context) then
      (opened ++ [p.keepFirst context]) :: groupFrom context [p.keepLast context] ps
    else groupFrom context (opened ++ [p]) ps

/-- The lines of a chunk as a hunk shows them. -/
def shownChunk : Chunk → List Text
  | .same lines => lines.map fun line => .char ' ' :: Text.chomp line
  | .differ old new =>
    (old.map fun line => .char '-' :: Text.chomp line) ++
      new.map fun line => .char '+' :: Text.chomp line

/-- The hunk of a group that begins with `first`. -/
def hunkOf (first : Piece) (rest : List Piece) : Hunk :=
  let last := (first :: rest).getLast (by simp)
  let oldLines := last.oldStop - first.oldAt
  let newLines := last.newStop - first.newAt
  { oldStart := if 0 < oldLines then first.oldAt + 1 else first.oldAt
    oldLines
    newStart := if 0 < newLines then first.newAt + 1 else first.newAt
    newLines
    lines := (first :: rest).flatMap fun p => shownChunk p.chunk }

/-- The hunks between two texts. -/
def hunks (context : Nat) (old new : Text) : List Hunk :=
  let pieces := place 0 0 (align old.lines new.lines)
  (groupFrom context [] (trimEnds context pieces)).filterMap fun
    | [] => none
    | first :: rest => some (hunkOf first rest)

end Diff

/-- The line above a hunk. -/
def Hunk.header (h : Hunk) : Text :=
  Text.concat ["@@ -", .ofNat h.oldStart, ",", .ofNat h.oldLines, " +", .ofNat h.newStart, ",",
    .ofNat h.newLines, " @@"]

end Stencil
