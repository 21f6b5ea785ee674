import Stencil.Text.Case

/-!
# Words in lower case

Keys and names are compared in lower case. For a word of plain small letters that is ASCII case
(`map_asciiLower_eq`): of the letters beyond ASCII only the Kelvin sign and the dotted capital I
have a lower case that begins with an ASCII letter.
-/

namespace Stencil

/-- The small letters whose capitals are ASCII letters only. -/
def Glyph.isPlainSmall (g : Glyph) : Bool :=
  0x61 ≤ g.code && g.code ≤ 0x7a && g.code != 0x69 && g.code != 0x6b

namespace Unicode

theorem map?_eq_some {run : CaseRun} {code image : Nat} (h : run.map? code = some image) :
    run.image ≤ image ∧ image ≤ run.image + (run.last - run.first) := by
  rw [CaseRun.map?] at h
  split at h
  · next hin =>
    simp only [Bool.and_eq_true, decide_eq_true_eq] at hin
    have := Option.some.inj h
    omega
  · cases h

theorem lowerRuns_image : lowerRuns.all (fun run =>
    0x80 ≤ run.image || (run.image == 0x6b && run.last == run.first)) = true := by
  decide +kernel

/-- Beyond ASCII only `k` and `i` come from elsewhere. -/
theorem exists_lowerOf {code : Nat} (h : 0x80 ≤ code) :
    ∃ image more, lowerOf code = image :: more ∧
      (0x80 ≤ image ∨ image = 0x69 ∨ image = 0x6b) := by
  rw [lowerOf, if_neg (by omega)]
  split
  · exact ⟨0x69, _, rfl, Or.inr (Or.inl rfl)⟩
  · refine ⟨_, _, rfl, ?_⟩
    cases hfind : lowerRuns.findSome? (·.map? code) with
    | none => exact Or.inl h
    | some image =>
        obtain ⟨run, hrun, hmap⟩ := List.exists_of_findSome?_eq_some hfind
        have hbounds := map?_eq_some hmap
        have himage := List.all_eq_true.mp lowerRuns_image run hrun
        simp only [Bool.or_eq_true, Bool.and_eq_true, decide_eq_true_eq, beq_iff_eq] at himage
        rw [Option.getD_some]
        omega

end Unicode

theorem Glyph.isPlainSmall_iff {g : Glyph} : g.isPlainSmall = true ↔
    0x61 ≤ g.code ∧ g.code ≤ 0x7a ∧ g.code ≠ 0x69 ∧ g.code ≠ 0x6b := by
  simp [isPlainSmall, and_assoc]

theorem toLower_ofNat : ∀ n < 0x80, (Char.ofNat n).toLower =
    Char.ofNat (if 0x41 ≤ n && n ≤ 0x5a then n + 0x20 else n) := by
  decide +kernel

namespace Text

theorem isPlainSmall_ofCode {code : Nat} (h : (Glyph.ofCode code).isPlainSmall = true) :
    0x61 ≤ code ∧ code ≤ 0x7a ∧ code ≠ 0x69 ∧ code ≠ 0x6b := by
  by_cases hvalid : code.isValidChar
  · have hcode : (Glyph.ofCode code).code = code := by
      rw [Glyph.ofCode, Glyph.code, Char.ofNat, dif_pos hvalid]
      rfl
    rwa [Glyph.isPlainSmall_iff, hcode] at h
  · rw [Glyph.ofCode, Char.ofNat, dif_neg hvalid] at h
    exact absurd h (by decide)

/-- Each glyph has a lower case, and where that begins with a plain small letter it is the one of
ASCII. -/
theorem lowerGlyph_cases (before : Text) (g : Glyph) (after : Text) :
    ∃ small more, lowerGlyph before g after = small :: more ∧
      (small.isPlainSmall = true → more = [] ∧ g.asciiLower = small) := by
  cases g with
  | byte b high =>
      refine ⟨_, _, rfl, fun h => absurd h ?_⟩
      rw [Glyph.isPlainSmall_iff, Glyph.code]
      omega
  | char c =>
      rw [lowerGlyph]
      split
      · refine ⟨_, _, rfl, fun h => ?_⟩
        have := isPlainSmall_ofCode h
        split at this <;> omega
      · by_cases hascii : c.toNat < 0x80
        · rw [Unicode.lowerOf, if_pos hascii]
          refine ⟨_, _, rfl, fun _ => ⟨rfl, ?_⟩⟩
          have hlower := toLower_ofNat c.toNat hascii
          rw [Char.ofNat_toNat] at hlower
          rw [Glyph.asciiLower, hlower, Glyph.ofCode]
        · obtain ⟨image, more, heq, himage⟩ := Unicode.exists_lowerOf (Nat.le_of_not_lt hascii)
          rw [heq]
          refine ⟨_, _, rfl, fun h => ?_⟩
          have := isPlainSmall_ofCode h
          omega

theorem map_asciiLower_eq {word : Text} (hword : ∀ g ∈ word, g.isPlainSmall = true) {t : Text} :
    ∀ {before : Text}, lowerFrom before t = word → t.map Glyph.asciiLower = word := by
  induction t generalizing word with
  | nil =>
      rintro before rfl
      rfl
  | cons g t ih =>
      intro before h
      obtain ⟨small, more, heq, hplain⟩ := lowerGlyph_cases before g t
      rw [lowerFrom, heq, List.cons_append] at h
      cases word with
      | nil => cases h
      | cons a word =>
          obtain ⟨rfl, hrest⟩ := List.cons.inj h
          obtain ⟨rfl, hsmall⟩ := hplain (hword _ List.mem_cons_self)
          rw [List.map_cons, hsmall, ih (fun g hg => hword g (List.mem_cons_of_mem _ hg)) hrest]

end Text

end Stencil
