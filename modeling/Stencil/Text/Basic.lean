/-!
# Text

A document on disk is bytes, and most of them are characters. The few that are not (pages written
in an older encoding) must survive every edit, so a text is a sequence of *glyphs*: a character,
or a byte that belongs to no character. Offsets, columns and lengths count glyphs.
-/

namespace Stencil

/-- One unit of text. A stray byte is at least `0x80`, since every byte below is a character. -/
inductive Glyph where
  | char (c : Char)
  | byte (b : UInt8) (high : 0x80 ≤ b)
deriving DecidableEq, Repr

namespace Glyph

/-- The place of a glyph in the order of glyphs. Stray bytes stand at `0xDC00` and up, where no
character is. -/
def code : Glyph → Nat
  | char c => c.toNat
  | byte b _ => 0xDC00 + b.toNat

instance : Coe Char Glyph := ⟨char⟩

/-- The glyph of a code point that is a character; other numbers are not asked for. -/
def ofCode (n : Nat) : Glyph := char (Char.ofNat n)

/-- Blank characters: the ASCII controls that space, the four information separators, and the
spaces of Unicode. -/
def isBlank (g : Glyph) : Bool :=
  let n := g.code
  (0x09 ≤ n && n ≤ 0x0d) || (0x1c ≤ n && n ≤ 0x20) || n == 0x85 || n == 0xa0 || n == 0x1680 ||
    (0x2000 ≤ n && n ≤ 0x200a) || n == 0x2028 || n == 0x2029 || n == 0x202f || n == 0x205f ||
    n == 0x3000

/-- ASCII digits only. -/
def isDigit (g : Glyph) : Bool := 0x30 ≤ g.code && g.code ≤ 0x39

/-- ASCII letters only. -/
def isLetter (g : Glyph) : Bool :=
  let n := g.code
  (0x41 ≤ n && n ≤ 0x5a) || (0x61 ≤ n && n ≤ 0x7a)

/-- Lower case for ASCII letters; everything else as it is. -/
def asciiLower : Glyph → Glyph
  | char c => char c.toLower
  | byte b h => byte b h

end Glyph

abbrev Text := List Glyph

instance : LawfulBEq Text := inferInstanceAs (LawfulBEq (List Glyph))

namespace Text

/-- A text of characters only. -/
def ofString (s : String) : Text := s.toList.map .char

/-- A literal is its characters. Literals are rewritten with this before a run on them is evaluated, which
would otherwise take the characters out of their bytes again and again. -/
theorem ofString_ofList (cs : List Char) : ofString (String.ofList cs) = cs.map .char := by
  rw [ofString, String.toList_ofList]

instance : Coe String Text := ⟨ofString⟩

def ofNat (n : Nat) : Text := (Nat.toDigits 10 n).map .char

/-- Zeros in front, up to a width. -/
def padZeros (width : Nat) (t : Text) : Text :=
  List.replicate (width - t.length) (.char '0') ++ t

/-- A number filled up with zeros to a width. -/
def padded (width n : Nat) : Text := padZeros width (ofNat n)

/-- The number that digits write. -/
def digitsValue (digits : Text) : Nat := digits.foldl (fun n g => n * 10 + (g.code - 0x30)) 0

def ofInt : Int → Text
  | .ofNat n => ofNat n
  | .negSucc n => .char '-' :: ofNat (n + 1)

def concat (parts : List Text) : Text := parts.flatten

/-- The parts in order with `between` written between neighbours. -/
def join (between : Text) : List Text → Text
  | [] => []
  | [part] => part
  | part :: parts => part ++ between ++ join between parts

def isBlank (t : Text) : Bool := t.all Glyph.isBlank

def dropBlanks (t : Text) : Text := t.dropWhile Glyph.isBlank

/-- The text without the blanks at either end. -/
def trim (t : Text) : Text := (dropBlanks (dropBlanks t).reverse).reverse

/-- From offset `start` up to, and without, offset `stop`. -/
def slice (t : Text) (start stop : Nat) : Text := (t.drop start).take (stop - start)

def startsWith (t head : Text) : Bool := head.isPrefixOf t

/-- What follows `head`, when the text begins with it. -/
def dropHead? (head t : Text) : Option Text := head.isPrefixOf? t

/-- What stands before the first `mark`, and what follows it. -/
def splitAt? (mark : Text) : Text → Option (Text × Text)
  | [] => if mark.isEmpty then some ([], []) else none
  | g :: t =>
    match dropHead? mark (g :: t) with
    | some rest => some ([], rest)
    | none => (splitAt? mark t).map fun (before, rest) => (g :: before, rest)

/-- What stands before the first glyph `mark`, and what follows it. -/
def upTo? (mark : Glyph) : Text → Option (Text × Text)
  | [] => none
  | g :: t => if g = mark then some ([], t) else (upTo? mark t).map fun (v, rest) => (g :: v, rest)

/-- The pieces between the glyphs `mark`; one more piece than there are marks. -/
def splitOn (mark : Glyph) : Text → List Text
  | [] => [[]]
  | g :: t =>
    if g = mark then [] :: splitOn mark t
    else match splitOn mark t with
      | [] => [[g]]
      | piece :: pieces => (g :: piece) :: pieces

/-- Glyph by glyph comparison; of two texts one of which begins the other, the shorter is first. -/
def compare : Text → Text → Ordering
  | [], [] => .eq
  | [], _ :: _ => .lt
  | _ :: _, [] => .gt
  | g :: s, h :: t => (Ord.compare g.code h.code).then (compare s t)

def le (s t : Text) : Bool := (compare s t).isLE

/-- Sorted by `compare`; equal texts keep their order. -/
def sort (ts : List Text) : List Text := ts.mergeSort le

/-- The characters of a text as a string, for a screen that shows characters only: a stray byte
becomes the replacement character. -/
def toString (t : Text) : String :=
  String.ofList (t.map fun
    | .char c => c
    | .byte _ _ => '\ufffd')

end Text

end Stencil
