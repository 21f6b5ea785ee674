import Stencil.Text.Basic

/-!
# Text as bytes

Reading bytes never fails and loses nothing: wherever a well-formed UTF-8 sequence stands, its
character is read, and any other byte is kept as it is. Writing gives each glyph its bytes back.
-/

namespace Stencil

abbrev Bytes := List UInt8

namespace Text

/-- A byte that can only continue a sequence. -/
def isContinuation (b : UInt8) : Bool := 0x80 ≤ b && b ≤ 0xbf

/-- The character whose well-formed sequence is `b` followed by the head of `rest`, and how many
bytes of `rest` it takes. The second byte has a narrower range after `0xe0`, `0xed`, `0xf0` and
`0xf4`: no overlong forms, no surrogates, nothing above `0x10ffff`. -/
def scalar? (b : UInt8) (rest : Bytes) : Option (Char × Nat) :=
  let low (x : UInt8) : Nat := x.toNat % 64
  if b < 0x80 then some (Char.ofNat b.toNat, 0)
  else if 0xc2 ≤ b && b ≤ 0xdf then
    match rest with
    | x :: _ => if isContinuation x then some (Char.ofNat (b.toNat % 32 * 64 + low x), 1) else none
    | _ => none
  else if 0xe0 ≤ b && b ≤ 0xef then
    match rest with
    | x :: y :: _ =>
      if isContinuation x && isContinuation y && (b != 0xe0 || 0xa0 ≤ x) && (b != 0xed || x ≤ 0x9f)
      then some (Char.ofNat ((b.toNat % 16 * 64 + low x) * 64 + low y), 2) else none
    | _ => none
  else if 0xf0 ≤ b && b ≤ 0xf4 then
    match rest with
    | x :: y :: z :: _ =>
      if isContinuation x && isContinuation y && isContinuation z && (b != 0xf0 || 0x90 ≤ x) &&
          (b != 0xf4 || x ≤ 0x8f)
      then some (Char.ofNat (((b.toNat % 8 * 64 + low x) * 64 + low y) * 64 + low z), 3) else none
    | _ => none
  else none

/-- The byte as a glyph of its own: a stray byte, or the ASCII character it is. -/
def glyphOfByte (b : UInt8) : Glyph :=
  if high : 0x80 ≤ b then .byte b high else .char (Char.ofNat b.toNat)

/-- Reads on, with `skip` bytes still belonging to the last character. -/
def decodeFrom : (skip : Nat) → Bytes → Text
  | _, [] => []
  | skip + 1, _ :: bs => decodeFrom skip bs
  | 0, b :: bs =>
    match scalar? b bs with
    | some (c, more) => .char c :: decodeFrom more bs
    | none => glyphOfByte b :: decodeFrom 0 bs

def decode (bs : Bytes) : Text := decodeFrom 0 bs

/-- The UTF-8 sequence of a character. -/
def charBytes (c : Char) : Bytes :=
  let n := c.toNat
  let tail (bits : Nat) : UInt8 := UInt8.ofNat (0x80 + bits % 0x40)
  if n < 0x80 then [UInt8.ofNat n]
  else if n < 0x800 then [UInt8.ofNat (0xc0 + n / 0x40), tail n]
  else if n < 0x10000 then [UInt8.ofNat (0xe0 + n / 0x1000), tail (n / 0x40), tail n]
  else [UInt8.ofNat (0xf0 + n / 0x40000), tail (n / 0x1000), tail (n / 0x40), tail n]

def glyphBytes : Glyph → Bytes
  | .char c => charBytes c
  | .byte b _ => [b]

def encode (t : Text) : Bytes := t.flatMap glyphBytes

/-- Whether a text holds characters only, so that any reader of UTF-8 accepts its bytes. -/
def isPlain (t : Text) : Bool :=
  t.all fun
    | .char _ => true
    | .byte _ _ => false

/-- Two lower-case hexadecimal digits per byte. -/
def hexOfBytes (bs : Bytes) : Text :=
  bs.flatMap fun b =>
    [.char (Nat.digitChar (b.toNat / 16)), .char (Nat.digitChar (b.toNat % 16))]

end Text

end Stencil
