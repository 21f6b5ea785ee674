import Stencil.Text.Bytes

/-!
# Text written and read again

The sequence of every character is well formed (`scalar?_charBytes`), and what is read as a character
is its sequence (`charBytes_of_scalar?`), so reading gives every byte back (`encode_decode`).

Written text is read as it was if its stray bytes are stray still where its bytes are read
(`decode_encode_of_isFaithful`). Text that has been read is like that (`isFaithful_decode`), and such
text can be cut and put together at any character (`isFaithful_append_char`), since no character
begins with a byte that continues another.
-/

namespace Stencil

namespace Text

/-! ## The sequence of a character -/

theorem toNat_ofNat_of_lt {n : Nat} (h : n < 256) : (UInt8.ofNat n).toNat = n := by
  rw [UInt8.toNat_ofNat']
  omega

/-- A byte behind the first one of a sequence. -/
def tailByte (n : Nat) : UInt8 := UInt8.ofNat (0x80 + n % 64)

theorem toNat_tailByte (n : Nat) : (tailByte n).toNat = 0x80 + n % 64 :=
  toNat_ofNat_of_lt (by omega)

theorem isContinuation_tailByte (n : Nat) : isContinuation (tailByte n) = true := by
  simp only [isContinuation, UInt8.le_iff_toNat_le, toNat_tailByte, UInt8.toNat_ofNat,
    Bool.and_eq_true, decide_eq_true_eq]
  omega

theorem scalar?_one {n : Nat} (h : n < 0x80) (rest : Bytes) :
    scalar? (UInt8.ofNat n) rest = some (Char.ofNat n, 0) := by
  have hb : (UInt8.ofNat n).toNat = n := toNat_ofNat_of_lt (by omega)
  unfold scalar?
  rw [if_pos (by rw [UInt8.lt_iff_toNat_lt, hb]; exact h), hb]

theorem scalar?_two {n : Nat} (hlow : 0x80 ≤ n) (hhigh : n < 0x800) (rest : Bytes) :
    scalar? (UInt8.ofNat (0xc0 + n / 64)) (tailByte n :: rest) = some (Char.ofNat n, 1) := by
  have hb : (UInt8.ofNat (0xc0 + n / 64)).toNat = 0xc0 + n / 64 := toNat_ofNat_of_lt (by omega)
  have hsum : (0xc0 + n / 64) % 32 * 64 + (0x80 + n % 64) % 64 = n := by omega
  unfold scalar?
  rw [if_neg (by rw [UInt8.lt_iff_toNat_lt, hb]; simp; omega),
    if_pos (by simp [UInt8.le_iff_toNat_le]; omega)]
  simp only [isContinuation_tailByte, if_true, hb, toNat_tailByte, hsum]

theorem scalar?_three {n : Nat} (hlow : 0x800 ≤ n) (hhigh : n < 0x10000)
    (hvalid : n < 0xd800 ∨ 0xdfff < n) (rest : Bytes) :
    scalar? (UInt8.ofNat (0xe0 + n / 0x1000)) (tailByte (n / 64) :: tailByte n :: rest) =
      some (Char.ofNat n, 2) := by
  have hb : (UInt8.ofNat (0xe0 + n / 0x1000)).toNat = 0xe0 + n / 0x1000 :=
    toNat_ofNat_of_lt (by omega)
  have hsum : ((0xe0 + n / 0x1000) % 16 * 64 + (0x80 + n / 64 % 64) % 64) * 64 +
      (0x80 + n % 64) % 64 = n := by omega
  -- neither overlong nor half of a surrogate pair
  have hnarrow : (UInt8.ofNat (0xe0 + n / 0x1000) != 0xe0 ||
      decide (0xa0 ≤ tailByte (n / 64))) = true ∧
      (UInt8.ofNat (0xe0 + n / 0x1000) != 0xed || decide (tailByte (n / 64) ≤ 0x9f)) = true := by
    simp only [Bool.or_eq_true, bne_iff_ne, ne_eq, ← UInt8.toNat_inj, UInt8.le_iff_toNat_le,
      decide_eq_true_eq, hb, toNat_tailByte, UInt8.toNat_ofNat]
    omega
  unfold scalar?
  rw [if_neg (by rw [UInt8.lt_iff_toNat_lt, hb]; simp; omega),
    if_neg (by simp [UInt8.le_iff_toNat_le]; omega),
    if_pos (by simp [UInt8.le_iff_toNat_le]; omega)]
  simp only [isContinuation_tailByte, hnarrow.1, hnarrow.2, Bool.and_true, if_true, hb,
    toNat_tailByte, hsum]

theorem scalar?_four {n : Nat} (hlow : 0x10000 ≤ n) (hhigh : n < 0x110000) (rest : Bytes) :
    scalar? (UInt8.ofNat (0xf0 + n / 0x40000))
      (tailByte (n / 0x1000) :: tailByte (n / 64) :: tailByte n :: rest) =
        some (Char.ofNat n, 3) := by
  have hb : (UInt8.ofNat (0xf0 + n / 0x40000)).toNat = 0xf0 + n / 0x40000 :=
    toNat_ofNat_of_lt (by omega)
  have hsum : (((0xf0 + n / 0x40000) % 8 * 64 + (0x80 + n / 0x1000 % 64) % 64) * 64 +
      (0x80 + n / 64 % 64) % 64) * 64 + (0x80 + n % 64) % 64 = n := by omega
  -- neither overlong nor above the last character
  have hnarrow : (UInt8.ofNat (0xf0 + n / 0x40000) != 0xf0 ||
      decide (0x90 ≤ tailByte (n / 0x1000))) = true ∧
      (UInt8.ofNat (0xf0 + n / 0x40000) != 0xf4 ||
      decide (tailByte (n / 0x1000) ≤ 0x8f)) = true := by
    simp only [Bool.or_eq_true, bne_iff_ne, ne_eq, ← UInt8.toNat_inj, UInt8.le_iff_toNat_le,
      decide_eq_true_eq, hb, toNat_tailByte, UInt8.toNat_ofNat]
    omega
  unfold scalar?
  rw [if_neg (by rw [UInt8.lt_iff_toNat_lt, hb]; simp; omega),
    if_neg (by simp [UInt8.le_iff_toNat_le]; omega),
    if_neg (by simp [UInt8.le_iff_toNat_le]; omega),
    if_pos (by simp [UInt8.le_iff_toNat_le]; omega)]
  simp only [isContinuation_tailByte, hnarrow.1, hnarrow.2, Bool.and_true, if_true, hb,
    toNat_tailByte, hsum]

/-- Behind the first byte of a character stand those that continue it. -/
theorem scalar?_charBytes (c : Char) : ∃ b bs, charBytes c = b :: bs ∧
    ∀ rest, scalar? b (bs ++ rest) = some (c, bs.length) := by
  have hvalid : c.toNat < 0xd800 ∨ 0xdfff < c.toNat ∧ c.toNat < 0x110000 := c.valid
  have hchar : Char.ofNat c.toNat = c := Char.ofNat_toNat c
  unfold charBytes
  dsimp only
  by_cases h1 : c.toNat < 0x80
  · rw [if_pos h1]
    refine ⟨_, [], rfl, fun rest => ?_⟩
    have hone := scalar?_one h1 rest
    rwa [hchar] at hone
  rw [if_neg h1]
  by_cases h2 : c.toNat < 0x800
  · rw [if_pos h2]
    refine ⟨_, _, rfl, fun rest => ?_⟩
    have htwo := scalar?_two (by omega) h2 rest
    rwa [hchar] at htwo
  rw [if_neg h2]
  by_cases h3 : c.toNat < 0x10000
  · rw [if_pos h3]
    refine ⟨_, _, rfl, fun rest => ?_⟩
    have hthree := scalar?_three (by omega) h3 (by omega) rest
    rwa [hchar] at hthree
  · rw [if_neg h3]
    refine ⟨_, _, rfl, fun rest => ?_⟩
    have hfour := scalar?_four (n := c.toNat) (by omega) (by omega) rest
    rwa [hchar] at hfour

theorem decodeFrom_append (bs rest : Bytes) :
    decodeFrom bs.length (bs ++ rest) = decodeFrom 0 rest := by
  induction bs with
  | nil => rfl
  | cons b bs ih =>
      rw [List.length_cons, List.cons_append, decodeFrom]
      exact ih

/-! ## What a sequence is read as -/

theorem toNat_ofNat_of_valid {n : Nat} (h : n.isValidChar) : (Char.ofNat n).toNat = n := by
  rw [Char.ofNat, dif_pos h]
  rfl

theorem isContinuation_iff {x : UInt8} :
    isContinuation x = true ↔ 0x80 ≤ x.toNat ∧ x.toNat ≤ 0xbf := by
  simp [isContinuation, UInt8.le_iff_toNat_le]

theorem ofNat_eq {b : UInt8} {n : Nat} (h : n = b.toNat) : UInt8.ofNat n = b := by
  rw [h, UInt8.ofNat_toNat]

theorem tailByte_eq {x : UInt8} (hx : isContinuation x = true) {n : Nat}
    (h : n % 64 = x.toNat % 64) : tailByte n = x := by
  rw [isContinuation_iff] at hx
  exact ofNat_eq (by omega)

/-- No character begins with a byte that continues another. -/
theorem charBytes_lead (c : Char) :
    ∃ x bs, charBytes c = x :: bs ∧ isContinuation x = false := by
  have hvalid : c.toNat < 0xd800 ∨ 0xdfff < c.toNat ∧ c.toNat < 0x110000 := c.valid
  have hlead : ∀ n : Nat, n < 0x80 ∨ 0xc0 ≤ n ∧ n < 256 →
      isContinuation (UInt8.ofNat n) = false := by
    intro n hn
    rw [Bool.eq_false_iff, ne_eq, isContinuation_iff, toNat_ofNat_of_lt (by omega)]
    omega
  unfold charBytes
  dsimp only
  split
  · exact ⟨_, _, rfl, hlead _ (by omega)⟩
  · split
    · exact ⟨_, _, rfl, hlead _ (by omega)⟩
    · split
      · exact ⟨_, _, rfl, hlead _ (by omega)⟩
      · exact ⟨_, _, rfl, hlead _ (by omega)⟩

theorem charBytes_one {b : UInt8} (hb : b.toNat < 0x80) :
    charBytes (Char.ofNat b.toNat) = [b] := by
  rw [charBytes, toNat_ofNat_of_valid (Or.inl (by omega)), if_pos hb]
  exact List.singleton_inj.mpr (ofNat_eq rfl)

theorem charBytes_two {b x : UInt8} (hb : 0xc2 ≤ b.toNat ∧ b.toNat ≤ 0xdf)
    (hx : isContinuation x = true) :
    charBytes (Char.ofNat (b.toNat % 32 * 64 + x.toNat % 64)) = [b, x] := by
  rw [charBytes, toNat_ofNat_of_valid (Or.inl (by omega)), if_neg (by omega), if_pos (by omega)]
  refine List.cons_eq_cons.mpr ⟨ofNat_eq (by omega), ?_⟩
  exact List.singleton_inj.mpr (tailByte_eq hx (by omega))

theorem charBytes_three {b x y : UInt8} (hb : 0xe0 ≤ b.toNat ∧ b.toNat ≤ 0xef)
    (hx : isContinuation x = true) (hy : isContinuation y = true)
    (hlow : b.toNat = 0xe0 → 0xa0 ≤ x.toNat) (hhigh : b.toNat = 0xed → x.toNat ≤ 0x9f) :
    charBytes (Char.ofNat ((b.toNat % 16 * 64 + x.toNat % 64) * 64 + y.toNat % 64)) =
      [b, x, y] := by
  have hx' := isContinuation_iff.mp hx
  rw [charBytes, toNat_ofNat_of_valid (by unfold Nat.isValidChar; omega), if_neg (by omega),
    if_neg (by omega), if_pos (by omega)]
  refine List.cons_eq_cons.mpr ⟨ofNat_eq (by omega), List.cons_eq_cons.mpr
    ⟨tailByte_eq hx (by omega), ?_⟩⟩
  exact List.singleton_inj.mpr (tailByte_eq hy (by omega))

theorem charBytes_four {b x y z : UInt8} (hb : 0xf0 ≤ b.toNat ∧ b.toNat ≤ 0xf4)
    (hx : isContinuation x = true) (hy : isContinuation y = true) (hz : isContinuation z = true)
    (hlow : b.toNat = 0xf0 → 0x90 ≤ x.toNat) (hhigh : b.toNat = 0xf4 → x.toNat ≤ 0x8f) :
    charBytes (Char.ofNat (((b.toNat % 8 * 64 + x.toNat % 64) * 64 + y.toNat % 64) * 64 +
      z.toNat % 64)) = [b, x, y, z] := by
  have hx' := isContinuation_iff.mp hx
  rw [charBytes, toNat_ofNat_of_valid (by unfold Nat.isValidChar; omega), if_neg (by omega),
    if_neg (by omega), if_neg (by omega)]
  refine List.cons_eq_cons.mpr ⟨ofNat_eq (by omega), List.cons_eq_cons.mpr
    ⟨tailByte_eq hx (by omega), List.cons_eq_cons.mpr ⟨tailByte_eq hy (by omega), ?_⟩⟩⟩
  exact List.singleton_inj.mpr (tailByte_eq hz (by omega))

/-- What has been read as a character is the sequence of that character. -/
theorem charBytes_of_scalar? {b : UInt8} {rest : Bytes} {c : Char} {more : Nat}
    (h : scalar? b rest = some (c, more)) : charBytes c = b :: rest.take more ∧
      more ≤ rest.length := by
  unfold scalar? at h
  simp only [Bool.and_eq_true, Bool.or_eq_true, decide_eq_true_eq, bne_iff_ne, ne_eq,
    ← UInt8.toNat_inj, UInt8.lt_iff_toNat_lt, UInt8.le_iff_toNat_le, UInt8.toNat_ofNat] at h
  split at h
  · next hb =>
    obtain ⟨rfl, rfl⟩ := Prod.mk.inj (Option.some.inj h)
    exact ⟨charBytes_one hb, Nat.zero_le _⟩
  split at h
  · next hb =>
    split at h
    · split at h
      · next hx =>
        obtain ⟨rfl, rfl⟩ := Prod.mk.inj (Option.some.inj h)
        exact ⟨charBytes_two hb hx, by simp⟩
      · cases h
    · cases h
  split at h
  · next hb =>
    split at h
    · split at h
      · next hx =>
        obtain ⟨rfl, rfl⟩ := Prod.mk.inj (Option.some.inj h)
        exact ⟨charBytes_three hb hx.1.1.1 hx.1.1.2 (by omega) (by omega), by simp⟩
      · cases h
    · cases h
  split at h
  · next hb =>
    split at h
    · split at h
      · next hx =>
        obtain ⟨rfl, rfl⟩ := Prod.mk.inj (Option.some.inj h)
        exact ⟨charBytes_four hb hx.1.1.1.1 hx.1.1.1.2 hx.1.1.2 (by omega) (by omega), by simp⟩
      · cases h
    · cases h
  · cases h

/-- A byte that continues nothing stands for whatever comes from there on. -/
theorem scalar?_append_lead {x : UInt8} (hx : isContinuation x = false) (b : UInt8)
    (bs more : Bytes) : scalar? b (bs ++ x :: more) = scalar? b bs := by
  rcases bs with _ | ⟨y, _ | ⟨z, _ | ⟨u, bs⟩⟩⟩ <;> rcases more with _ | ⟨v, _ | ⟨w, more⟩⟩ <;>
    simp [scalar?, hx]

/-! ## Reading -/

theorem encode_cons (g : Glyph) (t : Text) : encode (g :: t) = glyphBytes g ++ encode t :=
  List.flatMap_cons

theorem encode_append (t u : Text) : encode (t ++ u) = encode t ++ encode u :=
  List.flatMap_append

theorem glyphBytes_glyphOfByte (b : UInt8) : glyphBytes (glyphOfByte b) = [b] := by
  unfold glyphOfByte
  split
  · rfl
  · next hlow =>
    refine charBytes_one ?_
    simpa [UInt8.le_iff_toNat_le] using hlow

theorem encode_decodeFrom (skip : Nat) (bs : Bytes) :
    encode (decodeFrom skip bs) = bs.drop skip := by
  induction bs generalizing skip with
  | nil => cases skip <;> rfl
  | cons b bs ih =>
      cases skip with
      | succ skip =>
          rw [decodeFrom, ih]
          rfl
      | zero =>
          rw [decodeFrom]
          cases hscalar : scalar? b bs with
          | none =>
              dsimp only
              rw [encode_cons, glyphBytes_glyphOfByte, ih]
              rfl
          | some read =>
              obtain ⟨c, more⟩ := read
              obtain ⟨hbytes, -⟩ := charBytes_of_scalar? hscalar
              dsimp only
              rw [encode_cons, ih, glyphBytes, hbytes, List.cons_append, List.take_append_drop]
              rfl

/-- Reading loses nothing. -/
theorem encode_decode (bs : Bytes) : encode (decode bs) = bs := encode_decodeFrom 0 bs

/-! ## Stray bytes that stay stray -/

/-- No stray byte of the text begins a character where the bytes of the text are read. -/
def IsFaithful : Text → Prop
  | [] => True
  | .char _ :: t => IsFaithful t
  | .byte b _ :: t => scalar? b (encode t) = none ∧ IsFaithful t

/-- Text of which no stray byte begins a character is read back from its bytes. -/
theorem decode_encode_of_isFaithful {t : Text} (h : IsFaithful t) : decode t.encode = t := by
  unfold decode
  induction t with
  | nil => rfl
  | cons g t ih =>
      cases g with
      | char c =>
          obtain ⟨b, bs, hbytes, hscalar⟩ := scalar?_charBytes c
          rw [encode_cons, glyphBytes, hbytes, List.cons_append, decodeFrom, hscalar]
          dsimp only
          rw [decodeFrom_append, ih h]
      | byte b high =>
          obtain ⟨hscalar, ht⟩ := h
          rw [encode_cons, glyphBytes, List.singleton_append, decodeFrom, hscalar]
          dsimp only
          rw [ih ht, glyphOfByte, dif_pos high]

theorem isFaithful_decodeFrom (skip : Nat) (bs : Bytes) : IsFaithful (decodeFrom skip bs) := by
  induction bs generalizing skip with
  | nil => cases skip <;> trivial
  | cons b bs ih =>
      cases skip with
      | succ skip => exact ih skip
      | zero =>
          rw [decodeFrom]
          cases hscalar : scalar? b bs with
          | some read => exact ih read.2
          | none =>
              dsimp only
              unfold glyphOfByte
              split
              · exact ⟨(congrArg (scalar? b) (encode_decodeFrom 0 bs)).trans hscalar, ih 0⟩
              · exact ih 0

/-- What has been read is read so again. -/
theorem isFaithful_decode (bs : Bytes) : IsFaithful (decode bs) := isFaithful_decodeFrom 0 bs

/-- Characters may come first. -/
theorem isFaithful_plain_append {t : Text} (h : t.isPlain = true) (u : Text) :
    IsFaithful (t ++ u) ↔ IsFaithful u := by
  induction t with
  | nil => exact Iff.rfl
  | cons g t ih =>
      obtain ⟨hg, ht⟩ := (Bool.and_eq_true _ _).mp (List.all_cons.symm.trans h)
      cases g with
      | byte b high => cases hg
      | char c => exact ih ht

theorem isFaithful_of_isPlain {t : Text} (h : t.isPlain = true) : IsFaithful t := by
  rw [← List.append_nil t, isFaithful_plain_append h]
  trivial

/-- Text of characters only is read back from its bytes. -/
theorem decode_encode {t : Text} (h : t.isPlain = true) : decode t.encode = t :=
  decode_encode_of_isFaithful (isFaithful_of_isPlain h)

/-- A text can be cut at a character. -/
theorem isFaithful_append_char (t : Text) (c : Char) (u : Text) :
    IsFaithful (t ++ .char c :: u) ↔ IsFaithful t ∧ IsFaithful u := by
  induction t with
  | nil => exact (iff_of_eq (true_and _)).symm
  | cons g t ih =>
      cases g with
      | char d => exact ih
      | byte b high =>
          obtain ⟨x, bs, hbytes, hlead⟩ := charBytes_lead c
          have hscalar : scalar? b (encode (t ++ .char c :: u)) = scalar? b (encode t) := by
            rw [encode_append, encode_cons, glyphBytes, hbytes, List.cons_append,
              scalar?_append_lead hlead]
          rw [List.cons_append, IsFaithful, IsFaithful, hscalar, ih, and_assoc]

end Text

end Stencil
