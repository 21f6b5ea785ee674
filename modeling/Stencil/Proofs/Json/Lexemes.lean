import Mathlib.Tactic.IntervalCases
import Stencil.Json.Read
import Stencil.Json.Write

/-!
# Lexemes of what is written

A text that is cut into lexemes whatever follows it (`Lexes`) can be put together from such texts
(`Lexes.append`). Blanks, brackets and written strings are such texts; strings come back as they
were (`lexes_writeString`).
-/

namespace Stencil.Json

variable {dialect : Dialect}

/-- The text is read as these lexemes wherever it stands. -/
def Lexes (dialect : Dialect) (t : Text) (lexemes : List Lexeme) : Prop :=
  ∀ rest, lexFrom? dialect 0 (t ++ rest) = (lexFrom? dialect 0 rest).map (lexemes ++ ·)

theorem lexes_nil : Lexes dialect [] [] := by
  intro rest
  cases h : lexFrom? dialect 0 rest <;> simp [h]

theorem Lexes.append {t u : Text} {ls ms : List Lexeme} (ht : Lexes dialect t ls)
    (hu : Lexes dialect u ms) : Lexes dialect (t ++ u) (ls ++ ms) := by
  intro rest
  rw [List.append_assoc, ht, hu, Option.map_map]
  congr 1
  funext more
  rw [Function.comp_apply, List.append_assoc]

theorem lexFrom?_skip (t rest : Text) :
    lexFrom? dialect t.length (t ++ rest) = lexFrom? dialect 0 rest := by
  induction t with
  | nil => rfl
  | cons g t ih =>
      rw [List.length_cons, List.cons_append, lexFrom?]
      exact ih

/-- One lexeme that is read whatever follows. -/
theorem lexes_of_lexeme? {g : Glyph} {t : Text} {lexeme : Lexeme} (hg : isSpace g = false)
    (h : ∀ rest, lexeme? dialect (g :: t ++ rest) = some (lexeme, rest)) :
    Lexes dialect (g :: t) [lexeme] := by
  intro rest
  have hlength : (t ++ rest).length - rest.length = t.length := by
    rw [List.length_append]
    omega
  have hread := h rest
  rw [List.cons_append] at hread
  rw [List.cons_append, lexFrom?, hg, if_neg (by decide), hread]
  show (lexFrom? dialect ((t ++ rest).length - rest.length) (t ++ rest)).bind _ = _
  rw [hlength, lexFrom?_skip]
  cases lexFrom? dialect 0 rest <;> rfl

theorem lexes_space {t : Text} (h : ∀ g ∈ t, isSpace g = true) : Lexes dialect t [] := by
  intro rest
  induction t with
  | nil => exact lexes_nil rest
  | cons g t ih =>
      rw [List.cons_append, lexFrom?, if_pos (h g List.mem_cons_self)]
      exact ih fun g hg => h g (List.mem_cons_of_mem _ hg)

theorem lexes_indent (level : Nat) : Lexes dialect (indent level) [] := by
  refine lexes_space fun g hg => ?_
  rcases List.mem_cons.mp hg with rfl | hg
  · rfl
  · rw [List.eq_of_mem_replicate hg]
    rfl

theorem lexes_openArray : Lexes dialect "[" [.openArray] := lexes_of_lexeme? rfl fun _ => rfl
theorem lexes_closeArray : Lexes dialect "]" [.closeArray] := lexes_of_lexeme? rfl fun _ => rfl
theorem lexes_openObject : Lexes dialect "\x7b" [.openObject] := lexes_of_lexeme? rfl fun _ => rfl
theorem lexes_closeObject : Lexes dialect "\x7d" [.closeObject] := lexes_of_lexeme? rfl fun _ => rfl
theorem lexes_comma : Lexes dialect [.char ','] [.comma] := lexes_of_lexeme? rfl fun _ => rfl

theorem lexes_colon : Lexes dialect ": " [.colon] :=
  Lexes.append (t := [.char ':']) (u := [.char ' ']) (lexes_of_lexeme? rfl fun _ => rfl)
    (lexes_space (by decide))

/-! ## Strings -/

/-- The controls that are written with a letter. -/
def lettered : List Nat := [0x08, 0x09, 0x0a, 0x0c, 0x0d]

/-- What is read for a glyph that was written in a string. -/
def partOf (g : Glyph) : Part :=
  if g.code < 0x20 ∧ g.code ∉ lettered then .unit g.code else .glyph g

theorem eq_ofCode {g : Glyph} (h : g.code < 0x20) : g = .ofCode g.code := by
  cases g with
  | char c => rw [Glyph.ofCode, Glyph.code, Char.ofNat_toNat]
  | byte b high =>
      rw [Glyph.code] at h
      omega

/-- The controls, written with a letter or with four digits. -/
theorem escaped_ofCode : ∀ n < 0x20, (match escaped (.ofCode n) with
    | [.char '\\', letter] =>
      decide (letter ≠ .char 'u' ∧ escapeOf? letter = some (Char.ofNat n) ∧ n ∈ lettered)
    | [.char '\\', .char 'u', a, b, c, d] =>
      decide (hexUnit? a b c d = some n ∧ n ∉ lettered ∧
        ∀ g ∈ [a, b, c, d], g ≠ .char '"' ∧ g ≠ .char '\\')
    | _ => false) = true := by decide +kernel

theorem escaped_cases (g : Glyph) :
    (∃ letter c, escaped g = [.char '\\', letter] ∧ letter ≠ .char 'u' ∧
      escapeOf? letter = some c ∧ partOf g = .glyph (.char c)) ∨
    (∃ a b c d n, escaped g = [.char '\\', .char 'u', a, b, c, d] ∧
      hexUnit? a b c d = some n ∧ partOf g = .unit n ∧
        ∀ g ∈ [a, b, c, d], g ≠ .char '"' ∧ g ≠ .char '\\') ∨
    (escaped g = [g] ∧ 0x20 ≤ g.code ∧ g ≠ .char '"' ∧ g ≠ .char '\\' ∧ partOf g = .glyph g) := by
  by_cases hg : g.code < 0x20
  · have htable := escaped_ofCode g.code hg
    rw [← eq_ofCode hg] at htable
    split at htable
    · next letter heq =>
      obtain ⟨hletter, hescape, hmem⟩ := of_decide_eq_true htable
      refine Or.inl ⟨letter, _, heq, hletter, hescape, ?_⟩
      rw [partOf, if_neg (fun h => h.2 hmem)]
      exact congrArg Part.glyph (eq_ofCode hg)
    · next a b c d heq =>
      obtain ⟨hunit, hmem, hplain⟩ := of_decide_eq_true htable
      exact Or.inr (Or.inl ⟨a, b, c, d, _, heq, hunit, if_pos ⟨hg, hmem⟩, hplain⟩)
    · cases htable
  · have hpart : partOf g = .glyph g := if_neg fun h => hg h.1
    unfold escaped
    by_cases hquote : g = .char '"' ∨ g = .char '\\'
    · rw [if_pos (by simpa using hquote)]
      rcases hquote with rfl | rfl
      · exact Or.inl ⟨_, '"', rfl, by decide, rfl, hpart⟩
      · exact Or.inl ⟨_, '\\', rfl, by decide, rfl, hpart⟩
    · refine Or.inr (Or.inr ⟨?_, by omega, fun h => hquote (Or.inl h), fun h => hquote (Or.inr h),
        hpart⟩)
      simp only [Bool.or_eq_true, decide_eq_true_eq, beq_iff_eq]
      rw [if_neg hquote, if_neg (by omega), if_neg (by omega), if_neg (by omega),
        if_neg (by omega), if_neg (by omega), if_neg (by omega)]

theorem parts?_escaped (g : Glyph) (rest : Text) :
    parts? (escaped g ++ rest) = (parts? rest).map (partOf g :: ·) := by
  rcases escaped_cases g with ⟨letter, c, heq, hletter, hescape, hpart⟩ |
    ⟨a, b, c, d, n, heq, hunit, hpart, -⟩ | ⟨heq, hcode, -, hslash, hpart⟩
  · rw [heq, hpart, List.cons_append, List.singleton_append, parts?, hescape]
    · cases parts? rest <;> rfl
    · rintro a b c d t rfl
      exact absurd rfl hletter
  · simp only [heq, hpart, List.cons_append, List.nil_append, parts?, hunit]
    cases parts? rest <;> rfl
  · rw [heq, hpart, List.singleton_append, parts?, if_neg (by omega)]
    · cases parts? rest <;> rfl
    · rintro a b c d t rfl
      exact absurd rfl hslash
    · rintro g' t rfl
      exact absurd rfl hslash

theorem parts?_flatMap_escaped (t : Text) : parts? (t.flatMap escaped) = some (t.map partOf) := by
  induction t with
  | nil => rfl
  | cons g t ih =>
      rw [List.flatMap_cons, parts?_escaped, ih]
      rfl

theorem joinUnits?_unit {n : Nat} (h : n < 0xd800) (parts : List Part) :
    joinUnits? (.unit n :: parts) = (joinUnits? parts).map (.ofCode n :: ·) := by
  conv_lhs => unfold joinUnits?
  split
  · next heq => cases heq
  · next heq => cases heq
  · next high low more heq =>
    obtain ⟨hn, rfl⟩ := List.cons.inj heq
    obtain rfl := Part.unit.inj hn
    rw [if_neg (by simp; omega), if_neg (by simp; omega)]
    cases joinUnits? (.unit low :: more) <;> rfl
  · next m more hnot heq =>
    obtain ⟨hn, rfl⟩ := List.cons.inj heq
    obtain rfl := Part.unit.inj hn
    rw [if_neg (by simp; omega)]
    cases joinUnits? parts <;> rfl

theorem joinUnits?_map_partOf (t : Text) : joinUnits? (t.map partOf) = some t := by
  induction t with
  | nil => rfl
  | cons g t ih =>
      rw [List.map_cons, partOf]
      by_cases hg : g.code < 0x20 ∧ g.code ∉ lettered
      · rw [if_pos hg, joinUnits?_unit (by omega), ih, ← eq_ofCode hg.1]
        rfl
      · rw [if_neg hg, joinUnits?, ih]
        rfl

theorem rawString?_plain {t : Text} (h : ∀ g ∈ t, g ≠ .char '"' ∧ g ≠ .char '\\') (rest : Text) :
    rawString? false (t ++ rest) =
      (rawString? false rest).map fun (raw, after) => (t ++ raw, after) := by
  induction t with
  | nil => simp
  | cons g t ih =>
      obtain ⟨hquote, hslash⟩ := h g List.mem_cons_self
      rw [List.cons_append, rawString?, if_neg hquote, decide_eq_false hslash,
        ih fun g hg => h g (List.mem_cons_of_mem _ hg), Option.map_map]
      rfl

theorem rawString?_slash (g : Glyph) (rest : Text) : rawString? false (.char '\\' :: g :: rest) =
    (rawString? false rest).map fun (raw, after) => (.char '\\' :: g :: raw, after) := by
  rw [rawString?, if_neg (by decide), decide_eq_true rfl, rawString?, Option.map_map]
  rfl

/-- A written glyph never ends the string it is in. -/
theorem rawString?_escaped (g : Glyph) (rest : Text) : rawString? false (escaped g ++ rest) =
    (rawString? false rest).map fun (raw, after) => (escaped g ++ raw, after) := by
  rcases escaped_cases g with ⟨letter, c, heq, -⟩ | ⟨a, b, c, d, n, heq, -, -, hplain⟩ |
    ⟨heq, -, hquote, hslash, -⟩
  · rw [heq]
    exact rawString?_slash letter rest
  · rw [heq]
    show rawString? false (.char '\\' :: .char 'u' :: ([a, b, c, d] ++ rest)) = _
    rw [rawString?_slash, rawString?_plain hplain, Option.map_map]
    rfl
  · rw [heq]
    exact rawString?_plain (by simpa using ⟨hquote, hslash⟩) rest

theorem lexes_writeString (t : Text) : Lexes dialect (writeString t) [.string t] := by
  have hraw : ∀ rest, rawString? false (t.flatMap escaped ++ (.char '"' :: rest)) =
      some (t.flatMap escaped, rest) := by
    intro rest
    induction t with
    | nil => rfl
    | cons g t ih =>
        rw [List.flatMap_cons, List.append_assoc, rawString?_escaped, ih]
        rfl
  refine lexes_of_lexeme? rfl fun rest => ?_
  have hassoc : (t.flatMap escaped).append [.char '"'] ++ rest =
      t.flatMap escaped ++ (.char '"' :: rest) := List.append_assoc ..
  rw [List.cons_append, lexeme?, hassoc, hraw]
  show (parts? (t.flatMap escaped)).bind _ = _
  rw [parts?_flatMap_escaped, Option.bind_some, joinUnits?_map_partOf]
  rfl

end Stencil.Json
