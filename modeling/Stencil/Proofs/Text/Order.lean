import Stencil.Text.Basic
import Mathlib.Logic.Function.Basic

/-!
# The order of texts

Texts are compared as the lists of the codes of their glyphs (`le_iff`). No two glyphs share a code
(`Glyph.code_injective`), so this is a linear order.
-/

namespace Stencil

theorem isLE_total {α : Type} [Ord α] [Std.OrientedOrd α] (a b : α) :
    (compare a b).isLE = true ∨ (compare b a).isLE = true := by
  rw [Std.OrientedOrd.eq_swap (a := b)]
  cases compare a b <;> simp

/-- A stray byte has the code of a surrogate, which no character has. -/
theorem Glyph.code_injective : Function.Injective Glyph.code := by
  have hchar : ∀ (c : Char) (b : UInt8) (high : 0x80 ≤ b),
      (Glyph.char c).code ≠ (Glyph.byte b high).code := by
    intro c b high heq
    have hvalid := c.valid
    have hb : b.toNat < 256 := b.toNat_lt
    have hcode : c.val.toNat = 0xDC00 + b.toNat := heq
    rcases hvalid with h | ⟨h, -⟩
    · omega
    · omega
  intro g h heq
  cases g with
  | char c =>
      cases h with
      | char d => rw [Char.toNat_inj.mp heq]
      | byte b high => exact absurd heq (hchar c b high)
  | byte b high =>
      cases h with
      | char d => exact absurd heq.symm (hchar d b high)
      | byte b' high' =>
          have hb : b = b' := UInt8.toNat_inj.mp (Nat.add_left_cancel heq)
          subst hb
          rfl

namespace Text

theorem compare_eq (s t : Text) :
    compare s t = Ord.compare (s.map Glyph.code) (t.map Glyph.code) := by
  induction s generalizing t with
  | nil => cases t <;> rfl
  | cons g s ih =>
      cases t with
      | nil => rfl
      | cons h t => rw [compare, ih, List.map_cons, List.map_cons, List.compare_cons_cons]

theorem le_iff {s t : Text} :
    le s t = true ↔ (Ord.compare (s.map Glyph.code) (t.map Glyph.code)).isLE = true := by
  rw [le, compare_eq]

theorem le_total (s t : Text) : le s t = true ∨ le t s = true := by
  rw [le_iff, le_iff]
  exact isLE_total _ _

theorem le_trans {s t u : Text} (hst : le s t = true) (htu : le t u = true) : le s u = true :=
  le_iff.mpr (Std.TransCmp.isLE_trans (le_iff.mp hst) (le_iff.mp htu))

theorem le_antisymm {s t : Text} (hst : le s t = true) (hts : le t s = true) : s = t :=
  (List.map_inj_right fun _ _ h => Glyph.code_injective h).mp
    (Std.LawfulEqOrd.eq_of_compare
      (Std.OrientedCmp.isLE_antisymm (le_iff.mp hst) (le_iff.mp hts)))

end Text

end Stencil
