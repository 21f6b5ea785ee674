import Stencil.Text.Basic
import Stencil.Unicode.Printable

/-!
# Quoted text

Messages show a text between quotes so that its ends and its unprintable glyphs can be seen. The
quote is single, unless the text holds a single quote and no double one.
-/

namespace Stencil.Text

/-- A number in lower-case hexadecimal, filled up to `width` with zeros. -/
def hexOfNat (width n : Nat) : Text := padZeros width ((Nat.toDigits 16 n).map .char)

def quoteMark (t : Text) : Glyph :=
  if t.contains (.char '\'') && !t.contains (.char '"') then .char '"' else .char '\''

/-- How one glyph is written between the quotes `mark`: the quote and the backslash after a
backslash, line breaks and tabs by letter, what cannot be printed by number. -/
def quoteGlyph (mark g : Glyph) : Text :=
  let n := g.code
  if g = mark || g = .char '\\' then [.char '\\', g]
  else if n == 0x09 then [.char '\\', .char 't']
  else if n == 0x0a then [.char '\\', .char 'n']
  else if n == 0x0d then [.char '\\', .char 'r']
  else if Unicode.isPrintable n then [g]
  else if n ≤ 0xff then .char '\\' :: .char 'x' :: hexOfNat 2 n
  else if n ≤ 0xffff then .char '\\' :: .char 'u' :: hexOfNat 4 n
  else .char '\\' :: .char 'U' :: hexOfNat 8 n

def quoted (t : Text) : Text :=
  let mark := quoteMark t
  mark :: t.flatMap (quoteGlyph mark) ++ [mark]

end Stencil.Text
