import Stencil.Skeleton
import Stencil.Proofs.Marker.Kinds
import Stencil.Proofs.Text.Forms

/-!
# Parameters with other values

Giving a parameter marker another value exchanges what stands between two quotes
(`withValue_cases`), inside the comment (`withValue_wrap`) and behind its keyword
(`firstWord?_withValue`). So the comment stays one comment, and what it says of itself by its first
word stays, too.
-/

namespace Stencil

namespace Text

theorem dropWord?_eq_some_iff {word : List Char} {t rest : Text} :
    dropWord? word t = some rest ↔
      ∃ read : Text, t = read ++ rest ∧
        List.Forall₂ (fun letter (g : Glyph) => g.isCaseOf letter = true) word read := by
  induction word generalizing t with
  | nil =>
      rw [dropWord?]
      constructor
      · rintro h
        exact ⟨[], Option.some.inj h, .nil⟩
      · rintro ⟨read, rfl, hread⟩
        cases hread
        rfl
  | cons letter word ih =>
      cases t with
      | nil =>
          simp only [dropWord?, reduceCtorEq, false_iff]
          rintro ⟨read, heq, hread⟩
          rw [(List.append_eq_nil_iff.mp heq.symm).1] at hread
          cases hread
      | cons g t =>
          rw [dropWord?]
          split
          · next hg =>
            rw [ih]
            constructor
            · rintro ⟨read, rfl, hread⟩
              exact ⟨g :: read, rfl, .cons hg hread⟩
            · rintro ⟨read, heq, hread⟩
              cases hread with
              | cons hg' hread =>
                  obtain ⟨rfl, rfl⟩ := List.cons.inj heq
                  exact ⟨_, rfl, hread⟩
          · next hg =>
            simp only [reduceCtorEq, false_iff]
            rintro ⟨read, heq, hread⟩
            cases hread with
            | cons hg' hread =>
                obtain ⟨rfl, rfl⟩ := List.cons.inj heq
                exact hg hg'

end Text

namespace Skeleton

open Marker

theorem dropAssign?_eq_some_iff {t quoted : Text} :
    dropAssign? t = some quoted ↔
      ∃ gap gap' : Text, t = gap ++ .char '=' :: (gap' ++ .char '"' :: quoted) ∧
        gap.isBlank = true ∧ gap'.isBlank = true := by
  constructor
  · intro h
    rw [dropAssign?] at h
    split at h
    · next afterSign heq =>
      split at h
      · next rest heq' =>
        cases h
        obtain ⟨gap, rfl, hgap, -⟩ := Text.dropBlanks_eq_cons_iff.mp heq
        obtain ⟨gap', rfl, hgap', -⟩ := Text.dropBlanks_eq_cons_iff.mp heq'
        exact ⟨gap, gap', rfl, hgap, hgap'⟩
      · cases h
    · cases h
  · rintro ⟨gap, gap', rfl, hgap, hgap'⟩
    rw [dropAssign?, Text.dropBlanks_eq_cons_iff.mpr ⟨gap, rfl, hgap, by decide⟩]
    simp only
    rw [Text.dropBlanks_eq_cons_iff.mpr ⟨gap', rfl, hgap', by decide⟩]
    rfl

theorem value_toList : "value".toList = ['v', 'a', 'l', 'u', 'e'] := by decide

/-- A `value` attribute: the word, the sign between blanks, and a quoted value. -/
theorem valueForm_eq_some_iff {before : Option Glyph} {t head after : Text} :
    valueForm before t = some (head, after) ↔
      (before.map Glyph.isWord).getD false = false ∧
        ∃ word gap gap' old : Text, head = word ++ (gap ++ .char '=' :: (gap' ++ [.char '"'])) ∧
          List.Forall₂ (fun letter (g : Glyph) => g.isCaseOf letter = true)
            ['v', 'a', 'l', 'u', 'e'] word ∧
          gap.isBlank = true ∧ gap'.isBlank = true ∧
          t = head ++ (old ++ .char '"' :: after) ∧ Glyph.char '"' ∉ old := by
  cases hbefore : (before.map Glyph.isWord).getD false with
  | true => simp [valueForm, hbefore]
  | false =>
      simp only [valueForm, hbefore, Bool.false_eq_true, if_false, true_and, value_toList]
      constructor
      · intro h
        obtain ⟨rest, hrest, h⟩ := Option.bind_eq_some_iff.mp h
        obtain ⟨quoted, hquoted, h⟩ := Option.bind_eq_some_iff.mp h
        obtain ⟨⟨old, after'⟩, hold, h⟩ := Option.bind_eq_some_iff.mp h
        obtain ⟨rfl, rfl⟩ := Prod.mk.inj (Option.some.inj h)
        obtain ⟨word, rfl, hword⟩ := Text.dropWord?_eq_some_iff.mp hrest
        obtain ⟨gap, gap', rfl, hgap, hgap'⟩ := dropAssign?_eq_some_iff.mp hquoted
        obtain ⟨rfl, hnot⟩ := Text.upTo?_eq_some_iff.mp hold
        have htake : (word ++ (gap ++ .char '=' :: (gap' ++ .char '"' ::
            (old ++ .char '"' :: after')))).take
            ((word ++ (gap ++ .char '=' :: (gap' ++ .char '"' ::
              (old ++ .char '"' :: after')))).length - (old ++ .char '"' :: after').length) =
            word ++ (gap ++ .char '=' :: (gap' ++ [.char '"'])) := by
          rw [show word ++ (gap ++ Glyph.char '=' :: (gap' ++ .char '"' ::
            (old ++ .char '"' :: after'))) = (word ++ (gap ++ .char '=' :: (gap' ++
              [.char '"']))) ++ (old ++ .char '"' :: after') by simp]
          exact Text.take_length_sub _ _
        refine ⟨word, gap, gap', old, htake, hword, hgap, hgap', ?_, hnot⟩
        rw [htake]
        simp
      · rintro ⟨word, gap, gap', old, rfl, hword, hgap, hgap', rfl, hnot⟩
        have hin : word ++ (gap ++ Glyph.char '=' :: (gap' ++ [.char '"'])) ++
            (old ++ .char '"' :: after) =
            word ++ (gap ++ .char '=' :: (gap' ++ .char '"' :: (old ++ .char '"' :: after))) := by
          simp
        have hdrop := Text.dropWord?_eq_some_iff.mpr ⟨word, hin, hword⟩
        rw [hdrop]
        simp only [Option.bind_eq_bind, Option.bind_some,
          dropAssign?_eq_some_iff.mpr ⟨gap, gap', rfl, hgap, hgap'⟩,
          Text.upTo?_eq_some_iff.mpr ⟨rfl, hnot⟩]
        rw [Text.take_length_sub]

theorem isReader_valueForm : valueForm.IsReader := by
  intro before t head after h
  obtain ⟨-, word, gap, gap', old, -, -, -, -, rfl, -⟩ := valueForm_eq_some_iff.mp h
  exact ⟨head ++ (old ++ [.char '"']), by simp, by simp⟩

/-- Another value stands between the same quotes as the old one. -/
theorem withValue_cases (t value : Text) :
    withValue t value = t ∨ ∃ u old v : Text, t = u ++ .char '"' :: (old ++ .char '"' :: v) ∧
      withValue t value = u ++ .char '"' :: (value ++ .char '"' :: v) := by
  rcases Form.replaceFirstFrom_cases isReader_valueForm
    (fun head => head ++ value ++ [.char '"']) t none with h | ⟨u, before, head, read, rest, heq,
      hread, h⟩
  · exact Or.inl h
  · obtain ⟨-, word, gap, gap', old, hhead, -, -, -, htext, -⟩ := valueForm_eq_some_iff.mp hread
    refine Or.inr ⟨u ++ (word ++ (gap ++ .char '=' :: gap')), old, rest, ?_, ?_⟩
    · rw [heq, htext, hhead]
      simp
    · rw [withValue, Form.replaceFirst, h, hhead]
      simp

/-- The closer behind a body is not part of an attribute. -/
theorem valueForm_append_closer (before : Option Glyph) (g : Glyph) (t : Text) :
    valueForm before (g :: t ++ closer) =
      (valueForm before (g :: t)).map fun (head, after) => (head, after ++ closer) := by
  cases hread : valueForm before (g :: t) with
  | some read =>
      obtain ⟨head, after⟩ := read
      obtain ⟨hbefore, word, gap, gap', old, hhead, hword, hgap, hgap', heq, hnot⟩ :=
        valueForm_eq_some_iff.mp hread
      rw [Option.map_some, valueForm_eq_some_iff]
      exact ⟨hbefore, word, gap, gap', old, hhead, hword, hgap, hgap', by rw [heq]; simp, hnot⟩
  | none =>
      rw [Option.map_none, Option.eq_none_iff_forall_ne_some]
      rintro ⟨head, after⟩ hsome
      obtain ⟨hbefore, word, gap, gap', old, hhead, hword, hgap, hgap', heq, hnot⟩ :=
        valueForm_eq_some_iff.mp hsome
      rw [← List.append_assoc] at heq
      obtain ⟨after', heq', -⟩ := Text.append_eq_append_cons_left (by decide) heq
      rw [List.append_assoc] at heq'
      have := valueForm_eq_some_iff.mpr
        ⟨hbefore, word, gap, gap', old, hhead, hword, hgap, hgap', heq', hnot⟩
      rw [hread] at this
      cases this

/-- Nothing is read at a glyph that is no `v`. -/
theorem valueForm_cons_of_not_v {g : Glyph} (hg : g.isCaseOf 'v' = false) (before : Option Glyph)
    (t : Text) : valueForm before (g :: t) = none := by
  rw [Option.eq_none_iff_forall_ne_some]
  rintro ⟨head, after⟩ hsome
  obtain ⟨-, word, gap, gap', old, rfl, hword, -, -, heq, -⟩ := valueForm_eq_some_iff.mp hsome
  cases hword with
  | cons hv hword =>
      rw [← (List.cons.inj heq).1, hg] at hv
      cases hv

theorem replaceFirstFrom_append_closer (write : Text → Text) (t : Text) (before : Option Glyph) :
    valueForm.replaceFirstFrom write before (t ++ closer) =
      valueForm.replaceFirstFrom write before t ++ closer := by
  induction t generalizing before with
  | nil =>
      simp only [List.nil_append, closer, Form.replaceFirstFrom,
        valueForm_cons_of_not_v (g := .char '-') (by decide),
        valueForm_cons_of_not_v (g := .char '>') (by decide)]
  | cons g t ih =>
      rw [List.cons_append, Form.replaceFirstFrom, Form.replaceFirstFrom, ← List.cons_append,
        valueForm_append_closer]
      cases valueForm before (g :: t) with
      | none => simp only [Option.map_none, ih, List.cons_append]
      | some read => simp

/-- A hyphen before a body keeps no attribute from being read at its head. -/
theorem replaceFirstFrom_hyphen (write : Text → Text) (t : Text) :
    valueForm.replaceFirstFrom write (some (.char '-')) t =
      valueForm.replaceFirstFrom write none t := by
  cases t with
  | nil => rfl
  | cons g t =>
      have hblind : valueForm (some (.char '-')) (g :: t) = valueForm none (g :: t) := by
        have hword : (Glyph.char '-').isWord = false := by decide +kernel
        simp only [valueForm, Option.map_some, Option.map_none, Option.getD_some, Option.getD_none,
          hword]
      rw [Form.replaceFirstFrom, Form.replaceFirstFrom, hblind]

theorem withValue_wrap (body value : Text) :
    withValue (wrap body) value = wrap (withValue body value) := by
  simp only [withValue, Form.replaceFirst, wrap, opener, List.cons_append, List.nil_append,
    Form.replaceFirstFrom, valueForm_cons_of_not_v (g := .char '<') (by decide),
    valueForm_cons_of_not_v (g := .char '!') (by decide),
    valueForm_cons_of_not_v (g := .char '-') (by decide), replaceFirstFrom_append_closer,
    replaceFirstFrom_hyphen]

/-! ## The comment stays what it is -/

theorem isBody_withValue {body value : Text} (h : IsBody body) (hvalue : isQuiet value = true) :
    IsBody (withValue body value) := by
  rcases withValue_cases body value with heq | ⟨u, old, v, rfl, heq⟩
  · rw [heq]
    exact h
  · have hquote : Inert (.char '"') := by decide
    rw [isBody_append_cons hquote, isBody_append_cons hquote] at h
    rw [heq, isBody_append_cons hquote, isBody_append_cons hquote]
    exact ⟨h.1, hvalue, h.2.2⟩

theorem isBare_withValue {t value : Text} (h : IsBare t) (hvalue : IsBare value) :
    IsBare (withValue t value) := by
  rcases withValue_cases t value with heq | ⟨u, old, v, rfl, heq⟩
  · rw [heq]
    exact h
  · rw [heq]
    simp only [IsBare, List.mem_append, List.mem_cons, not_or] at h hvalue ⊢
    exact ⟨⟨h.1.1, h.1.2.1, hvalue.1, h.1.2.2.2.1, h.1.2.2.2.2⟩,
      h.2.1, h.2.2.1, hvalue.2, h.2.2.2.2.1, h.2.2.2.2.2⟩

theorem firstWord?_withValue {body word rest : Text} (h : firstWord? body = some (word, rest))
    (value : Text) : ∃ rest', firstWord? (withValue body value) = some (word, rest') := by
  rcases withValue_cases body value with heq | ⟨u, old, v, hbody, heq⟩
  · exact ⟨rest, by rw [heq, h]⟩
  · obtain ⟨gap, hsplit, hgap, hword, hrest⟩ := firstWord?_eq_some_iff.mp h
    have hquote : Glyph.char '"' ∉ gap ++ word := fun hm => by
      rcases List.mem_append.mp hm with hm | hm
      · exact Text.not_mem_of_isBlank hgap (by decide) hm
      · exact absurd (hword.letters _ hm) (by decide)
    obtain ⟨u', rfl, hrest'⟩ := Text.append_eq_append_cons_right hquote
      (by rw [List.append_assoc, ← hsplit, hbody] : gap ++ word ++ rest = _)
    refine ⟨u' ++ .char '"' :: (value ++ .char '"' :: v), firstWord?_eq_some_iff.mpr
      ⟨gap, by rw [heq]; simp, hgap, hword, ?_⟩⟩
    intro g hg
    refine hrest g ?_
    cases u' with
    | nil =>
        -- the quote itself would have to be blank
        rw [List.nil_append] at hrest'
        exact absurd (hrest _ (by rw [hrest']; rfl)) (by decide)
    | cons a u' => rw [hrest']; exact hg

end Skeleton

end Stencil
