import Stencil.Binary64
import Stencil.Unicode.Digit

/-!
# Timeouts

A timeout is a number of seconds, written as a decimal with an optional sign, fraction and
exponent, or as one of the words for infinity and for no number at all. Underscores may stand
between digits. Digits of any script count, and blanks at the ends do not, though the four
information separators are no blanks here.
-/

namespace Stencil

inductive Timeout where
  | seconds (x : Binary64)
  /-- Not a number. -/
  | undefined
deriving DecidableEq, Repr

namespace Timeout

/-- A glyph as one of the characters that numbers are written with. -/
def plain (g : Glyph) : Glyph :=
  if g.code < 0x80 then g
  else if g.isBlank then .char ' '
  else match Unicode.decimalValue? g.code with
    | some d => .ofCode (0x30 + d)
    | none => .char '?'

def isSpace (g : Glyph) : Bool := (0x09 ≤ g.code && g.code ≤ 0x0d) || g.code == 0x20

def trimmed (t : Text) : Text :=
  (((t.map plain).dropWhile isSpace).reverse.dropWhile isSpace).reverse

/-- The text without underscores, each of which must stand between two digits. -/
def joinDigits? (before : Option Glyph) : Text → Option Text
  | [] => some []
  | g :: t =>
    if g = .char '_' then
      if before.any Glyph.isDigit && t.head?.any Glyph.isDigit then joinDigits? (some g) t else none
    else (joinDigits? (some g) t).map (g :: ·)

/-- A leading sign: whether it is a minus, and what follows. -/
def sign : Text → Bool × Text
  | .char '-' :: t => (true, t)
  | .char '+' :: t => (false, t)
  | t => (false, t)

/-- The digits behind a point, if there is one, and what follows. -/
def fraction : Text → Text × Text
  | .char '.' :: t => (t.takeWhile Glyph.isDigit, t.dropWhile Glyph.isDigit)
  | t => ([], t)

/-- An exponent that is all that is left; none counts as zero. -/
def exponent? : Text → Option Int
  | [] => some 0
  | g :: t =>
    if g.asciiLower = .char 'e' then
      let (negative, digits) := sign t
      if digits.isEmpty || !digits.all Glyph.isDigit then none
      else some (if negative then -(Text.digitsValue digits : Int) else Text.digitsValue digits)
    else none

def infinityWords : List Text := ["inf", "infinity"]

def undefinedWord : Text := "nan"

/-- Reads a timeout. -/
def read? (t : Text) : Option Timeout := do
  let joined ← joinDigits? none (trimmed t)
  let (negative, body) := sign joined
  let word := body.map Glyph.asciiLower
  if infinityWords.contains word then return .seconds (.infinite negative)
  else if word = undefinedWord then return .undefined
  else
    let whole := body.takeWhile Glyph.isDigit
    let (places, rest) := fraction (body.dropWhile Glyph.isDigit)
    if whole.isEmpty && places.isEmpty then none
    else
      let exponent ← exponent? rest
      return .seconds (.ofDecimal negative (Text.digitsValue (whole ++ places))
        (exponent - places.length))

/-! ## Showing -/

/-- The number of digits that a time is shown with. -/
def shownPlaces : Nat := 6

/-- The leading digits of `num / den`, which is not zero, rounded, and the exponent of the first. -/
def leadingDigits (num den : Nat) : Nat × Int :=
  let lead := Binary64.leadingExponent num den
  let (up, down) := Binary64.scaled 10 1 (lead + 1 - shownPlaces)
  let digits := Binary64.roundDiv (num * down) (den * up)
  if digits = Nat.pow 10 shownPlaces then (Nat.pow 10 (shownPlaces - 1), lead + 1)
  else (digits, lead)

/-- Digits in their places, with a point only if some stand behind it. -/
def positional (digits : Text) (lead : Int) : Text :=
  if lead < 0 then Text.concat ["0.", List.replicate (lead.natAbs - 1) (.char '0'), digits]
  else
    let whole := lead.toNat + 1
    let zeros := List.replicate (whole - digits.length) (Glyph.char '0')
    let behind := digits.drop whole
    Text.concat [digits.take whole, zeros, if behind.isEmpty then [] else .char '.' :: behind]

/-- One digit, the others behind a point if there are any, and an exponent. -/
def scientific (digits : Text) (lead : Int) : Text :=
  let behind := digits.drop 1
  Text.concat [digits.take 1, if behind.isEmpty then [] else .char '.' :: behind, "e",
    if lead < 0 then "-" else "+", Text.padded 2 lead.natAbs]

/-- Six digits at most, without zeros at the end: positional from `0.0001` up to six digits before
the point. -/
def shown : Timeout → Text
  | .undefined => undefinedWord
  | .seconds (.infinite negative) => (Binary64.infinite negative).shown
  | .seconds (.finite negative mantissa exponent) =>
    let sign : Text := if negative then "-" else []
    if mantissa = 0 then sign ++ Text.ofString "0"
    else
      let (num, den) := Binary64.scaled 2 mantissa exponent
      let (digits, lead) := leadingDigits num den
      let kept := ((Text.ofNat digits).reverse.dropWhile (· = Glyph.char '0')).reverse
      sign ++ if lead < -4 || (shownPlaces : Int) ≤ lead then scientific kept lead
        else positional kept lead

end Timeout

end Stencil
