import Stencil.Text.Basic
import Stencil.Unicode.Case

/-!
# Letter case of texts

Keys of attributes and names of tags are compared in lower case. The mapping is that of single
characters, except for capital sigma, whose form depends on its neighbours.
-/

namespace Stencil.Text

/-- Whether the first glyph that is not looked through is a cased letter. -/
def reachesCased (t : Text) : Bool :=
  match t.dropWhile fun g => Unicode.isCaseIgnorable g.code with
  | g :: _ => Unicode.isCased g.code
  | [] => false

/-- Lower case of one glyph between `before`, nearest first, and `after`. -/
def lowerGlyph (before : Text) (g : Glyph) (after : Text) : Text :=
  match g with
  | .char c =>
    if c.toNat == 0x3a3 then
      [Glyph.ofCode (if reachesCased before && !reachesCased after then 0x3c2 else 0x3c3)]
    else (Unicode.lowerOf c.toNat).map Glyph.ofCode
  | .byte b h => [.byte b h]

def lowerFrom (before : Text) : Text → Text
  | [] => []
  | g :: t => lowerGlyph before g t ++ lowerFrom (g :: before) t

def lower (t : Text) : Text := lowerFrom [] t

def upper (t : Text) : Text :=
  t.flatMap fun
    | .char c => (Unicode.upperOf c.toNat).map Glyph.ofCode
    | .byte b h => [.byte b h]

end Stencil.Text
