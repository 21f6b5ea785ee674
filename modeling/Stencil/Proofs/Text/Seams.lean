import Stencil.Proofs.Text.Bytes

/-!
# Cutting bytes and text

Bytes can be cut in front of any byte that continues no character, since an incomplete sequence is read
in the same way at the end of the input and before such a byte (`decode_append_lead`). Text can be cut
anywhere: as code points, of which stray bytes are surrogates, every piece of a text that has been read
can be written, and the pieces make up the bytes again (`decode_lossless`).
-/

namespace Stencil

/-- The glyph of a code point: the character it is, or the stray byte that it keeps. Surrogates that keep
no byte are no glyphs. -/
def Glyph.ofCode? (n : Nat) : Option Glyph :=
  if n.isValidChar then some (.char (Char.ofNat n))
  else if 0xdc80 ≤ n ∧ n ≤ 0xdcff then some (Text.glyphOfByte (UInt8.ofNat (n - 0xdc00)))
  else none

theorem Glyph.ofCode?_code (g : Glyph) : ofCode? g.code = some g := by
  cases g with
  | char c =>
      have hvalid : c.toNat.isValidChar := c.valid
      rw [code, ofCode?, if_pos hvalid, Char.ofNat_toNat]
  | byte b high =>
      have hlow : 0x80 ≤ b.toNat := UInt8.le_iff_toNat_le.mp high
      have hlt := b.toNat_lt
      have hinvalid : ¬ (0xdc00 + b.toNat).isValidChar := by
        unfold Nat.isValidChar
        omega
      have hbyte : UInt8.ofNat (0xdc00 + b.toNat - 0xdc00) = b := Text.ofNat_eq (by omega)
      rw [code, ofCode?, if_neg hinvalid, if_pos (by omega), hbyte, Text.glyphOfByte, dif_pos high]

namespace Text

/-! ## Cutting bytes -/

theorem decodeFrom_append_lead {x : UInt8} (hx : isContinuation x = false) (c : Bytes) {a : Bytes}
    {skip : Nat} (hskip : skip ≤ a.length) :
    decodeFrom skip (a ++ x :: c) = decodeFrom skip a ++ decodeFrom 0 (x :: c) := by
  induction a generalizing skip with
  | nil =>
      obtain rfl := Nat.le_zero.mp hskip
      rfl
  | cons b a ih =>
      cases skip with
      | succ skip => exact ih (Nat.le_of_succ_le_succ hskip)
      | zero =>
          rw [List.cons_append, decodeFrom, decodeFrom, scalar?_append_lead hx]
          cases hscalar : scalar? b a with
          | none => exact congrArg (glyphOfByte b :: ·) (ih (Nat.zero_le _))
          | some read =>
              obtain ⟨d, more⟩ := read
              exact congrArg (Glyph.char d :: ·) (ih (charBytes_of_scalar? hscalar).2)

/-- Bytes can be cut before one that continues no character. -/
theorem decode_append_lead {x : UInt8} (hx : isContinuation x = false) (a c : Bytes) :
    decode (a ++ x :: c) = decode a ++ decode (x :: c) :=
  decodeFrom_append_lead hx c (Nat.zero_le _)

theorem isContinuation_of_ascii {x : UInt8} (hx : x < 0x80) : isContinuation x = false := by
  rw [Bool.eq_false_iff, ne_eq, isContinuation_iff]
  rw [UInt8.lt_iff_toNat_lt] at hx
  exact fun h => absurd h.1 (Nat.not_le.mpr hx)

theorem decode_ascii_cons {x : UInt8} (hx : x < 0x80) (c : Bytes) :
    decode (x :: c) = decode [x] ++ decode c := by
  have hscalar : ∀ rest, scalar? x rest = some (Char.ofNat x.toNat, 0) := fun rest => by
    unfold scalar?
    exact if_pos hx
  rw [decode, decode, decodeFrom, decodeFrom, hscalar, hscalar]
  rfl

/-- Where an ASCII byte stands on one side, or there is nothing on it, bytes can be cut. -/
theorem decode_append {a c : Bytes}
    (h : (∀ x ∈ c.head?, x < 0x80) ∨ ∀ x ∈ a.getLast?, x < 0x80) :
    decode (a ++ c) = decode a ++ decode c := by
  rcases h with hhead | hlast
  · cases c with
    | nil => rw [List.append_nil, decode, decode, decodeFrom, List.append_nil]
    | cons x c => exact decode_append_lead (isContinuation_of_ascii (hhead x rfl)) a c
  · rcases List.eq_nil_or_concat a with rfl | ⟨init, x, rfl⟩
    · rfl
    · have hx : x < 0x80 := hlast x (by simp)
      have hlead := isContinuation_of_ascii hx
      rw [List.concat_eq_append, List.append_assoc, List.singleton_append, decode_append_lead hlead,
        decode_append_lead hlead, decode_ascii_cons hx, List.append_assoc]

/-! ## Cutting text -/

/-- Writes code points, if each of them is a glyph. -/
def encodeCodes? (codes : List Nat) : Option Bytes := (codes.mapM Glyph.ofCode?).map encode

theorem mapM_ofCode?_code (t : Text) : (t.map Glyph.code).mapM Glyph.ofCode? = some t := by
  induction t with
  | nil => rfl
  | cons g t ih => simp [Glyph.ofCode?_code, ih]

theorem encodeCodes?_code (t : Text) : encodeCodes? (t.map Glyph.code) = some t.encode := by
  rw [encodeCodes?, mapM_ofCode?_code, Option.map_some]

/-- However the code points of a text are cut, each piece can be written. -/
theorem mapM_encodeCodes? {t : Text} {pieces : List (List Nat)}
    (h : pieces.flatten = t.map Glyph.code) :
    ∃ parts, pieces.mapM encodeCodes? = some parts ∧ parts.flatten = t.encode := by
  induction pieces generalizing t with
  | nil =>
      obtain rfl := List.map_eq_nil_iff.mp h.symm
      exact ⟨[], rfl, rfl⟩
  | cons piece pieces ih =>
      obtain ⟨u, v, rfl, rfl, hv⟩ := List.map_eq_append_iff.mp (h.symm.trans List.flatten_cons)
      obtain ⟨parts, hparts, hflat⟩ := ih hv.symm
      refine ⟨encode u :: parts, by simp [encodeCodes?_code, hparts], ?_⟩
      rw [List.flatten_cons, hflat, encode_append]

/-- Reading loses nothing, can be cut beside an ASCII byte, and what has been read can be cut anywhere
and written piece by piece. -/
theorem decode_lossless (b : Bytes) :
    encode (decode b) = b ∧
      (∀ a c : Bytes, (∀ x ∈ c.head?, x < 0x80) ∨ (∀ x ∈ a.getLast?, x < 0x80) →
        decode (a ++ c) = decode a ++ decode c) ∧
      ∀ pieces : List (List Nat), pieces.flatten = (decode b).map Glyph.code →
        ∃ parts, pieces.mapM encodeCodes? = some parts ∧ parts.flatten = b := by
  refine ⟨encode_decode b, fun a c h => decode_append h, fun pieces h => ?_⟩
  obtain ⟨parts, hparts, hflat⟩ := mapM_encodeCodes? h
  exact ⟨parts, hparts, hflat.trans (encode_decode b)⟩

/-- A sequence that breaks off before an ASCII byte, cut within what is left of it. -/
theorem decode_lossless_brokenOff :
    decode ([0x61, 0xe2, 0x82] ++ [0x3c]) = decode [0x61, 0xe2, 0x82] ++ decode [0x3c] ∧
      [[0x61, 0xdce2], [0xdc82]].flatten = (decode [0x61, 0xe2, 0x82]).map Glyph.code ∧
      ∃ parts, [[0x61, 0xdce2], [0xdc82]].mapM encodeCodes? = some parts ∧
        parts.flatten = [0x61, 0xe2, 0x82] := by
  have hcut : [[0x61, 0xdce2], [0xdc82]].flatten = (decode [0x61, 0xe2, 0x82]).map Glyph.code := by
    decide +kernel
  exact ⟨(decode_lossless [0x61, 0xe2, 0x82]).2.1 _ _ (by decide +kernel), hcut,
    (decode_lossless [0x61, 0xe2, 0x82]).2.2 _ hcut⟩

end Text

end Stencil
