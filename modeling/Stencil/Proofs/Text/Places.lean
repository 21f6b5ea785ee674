import Stencil.Position
import Mathlib.Data.List.TakeWhile

/-!
# Places by counting

The place of an offset is found by looking among the offsets at which lines begin. What it comes to
is a count: the line is the number of line feeds before the offset, the column the number of glyphs
behind the last of them (`endOf`, `ofOffset_lineStarts`). So a place depends on no more than the text
before it, and the place of an offset in joined texts is that of the second text moved to where the
first one ends (`endOf_append`).
-/

namespace Stencil.Position

/-- How many glyphs stand behind the last line feed of a text, or in all of it if it has none. -/
def column (t : Text) : Nat := (t.reverse.takeWhile fun g => g ≠ .char '\n').length

/-- The place where a text ends: how many line feeds it holds, and how many glyphs stand behind the
last one. -/
def endOf (t : Text) : Position := ⟨t.count (.char '\n'), column t⟩

/-- The place `q` of a text that itself begins at place `p`. -/
def onward (p q : Position) : Position :=
  ⟨p.line + q.line, if q.line = 0 then p.character + q.character else q.character⟩

/-! ## Ends of joined texts -/

theorem column_append_of_not_mem (t : Text) {u : Text} (h : Glyph.char '\n' ∉ u) :
    column (t ++ u) = column t + u.length := by
  have hall : ∀ g ∈ u.reverse, decide (g ≠ Glyph.char '\n') = true := fun g hg =>
    decide_eq_true fun heq => h (heq ▸ List.mem_reverse.mp hg)
  rw [column, List.reverse_append, List.takeWhile_append_of_pos hall, List.length_append,
    List.length_reverse, Nat.add_comm, column]

theorem column_eq_length {t : Text} (h : Glyph.char '\n' ∉ t) : column t = t.length := by
  rw [← List.nil_append t, column_append_of_not_mem [] h, List.nil_append]
  exact Nat.zero_add _

theorem column_append_of_mem (t : Text) {u : Text} (h : Glyph.char '\n' ∈ u) :
    column (t ++ u) = column u := by
  obtain ⟨above, below, rfl⟩ := List.append_of_mem h
  simp [column, List.takeWhile_append]

theorem endOf_append (t u : Text) : endOf (t ++ u) = (endOf t).onward (endOf u) := by
  rw [endOf, endOf, endOf, onward, List.count_append]
  by_cases h : Glyph.char '\n' ∈ u
  · rw [column_append_of_mem t h, if_neg fun hcount => List.count_eq_zero.mp hcount h]
  · rw [column_append_of_not_mem t h, column_eq_length h, if_pos (List.count_eq_zero.mpr h)]

theorem endOf_nil_onward (p : Position) : (endOf []).onward p = p := by
  rw [onward, show endOf [] = ⟨0, 0⟩ from rfl, Nat.zero_add, Nat.zero_add, ite_self]

theorem onward_assoc (p q r : Position) : (p.onward q).onward r = p.onward (q.onward r) := by
  simp only [onward, Nat.add_eq_zero_iff, Nat.add_assoc, mk.injEq, true_and]
  by_cases hq : q.line = 0 <;> by_cases hr : r.line = 0 <;> simp [hq, hr, Nat.add_assoc]

/-- A text that is not empty ends behind the place where it begins. -/
theorem lt_onward_endOf (p : Position) {t : Text} (h : t ≠ []) : p < p.onward (endOf t) := by
  by_cases hline : Glyph.char '\n' ∈ t
  · refine Or.inl ?_
    have hcount := List.count_pos_iff.mpr hline
    exact Nat.lt_add_of_pos_right hcount
  · have hcount := List.count_eq_zero.mpr hline
    have hlength := List.length_pos_iff.mpr h
    refine Or.inr ⟨?_, ?_⟩
    · simp [onward, endOf, hcount]
    · simp only [onward, endOf, hcount, if_true, column_eq_length hline]
      omega

/-! ## The place of an offset -/

theorem lt_of_mem_startsBehind {place start : Nat} {t : Text} (h : start ∈ startsBehind place t) :
    place < start := by
  induction t generalizing place with
  | nil => cases h
  | cons g t ih =>
      rw [startsBehind] at h
      split at h
      · rcases List.mem_cons.mp h with rfl | h
        · exact Nat.lt_succ_self _
        · exact Nat.lt_of_succ_lt (ih h)
      · exact Nat.lt_of_succ_lt (ih h)

theorem pairwise_startsBehind (place : Nat) (t : Text) :
    (startsBehind place t).Pairwise (· < ·) := by
  induction t generalizing place with
  | nil => exact List.Pairwise.nil
  | cons g t ih =>
      rw [startsBehind]
      split
      · exact List.pairwise_cons.mpr ⟨fun start hstart => lt_of_mem_startsBehind hstart, ih _⟩
      · exact ih _

theorem lineOf_cons {start offset : Nat} {starts : List Nat} (h : start ≤ offset) :
    lineOf (start :: starts) offset = starts.countP fun later => later ≤ offset := by
  simp only [lineOf, Int.ofNat_le, List.countP_cons, decide_eq_true h, if_true, Nat.add_sub_cancel]

/-- A line that begins at or before the offset puts all lines above it out of the search. -/
theorem lineOf_cons_cons {above start offset : Nat} {starts : List Nat} (habove : above ≤ offset)
    (hstart : start ≤ offset) :
    lineOf (above :: start :: starts) offset = lineOf (start :: starts) offset + 1 := by
  simp only [lineOf_cons habove, lineOf_cons hstart, List.countP_cons, decide_eq_true hstart,
    if_true]

theorem lineOf_of_forall_lt {start offset : Nat} {starts : List Nat} (h : start ≤ offset)
    (hlater : ∀ later ∈ starts, offset < later) : lineOf (start :: starts) offset = 0 := by
  rw [lineOf_cons h, List.countP_eq_zero]
  exact fun later hmem => by simpa using hlater later hmem

theorem ofOffset_cons_cons {above start offset : Nat} {starts : List Nat} (habove : above ≤ offset)
    (hstart : start ≤ offset) : ofOffset (above :: start :: starts) offset =
      (⟨1, 0⟩ : Position).onward (ofOffset (start :: starts) offset) := by
  rw [ofOffset, ofOffset, lineOf_cons_cons habove hstart, List.getElem?_cons_succ, onward,
    Nat.add_comm 1, Nat.zero_add, ite_self]

theorem ofOffset_of_forall_lt {start offset : Nat} {starts : List Nat} (h : start ≤ offset)
    (hlater : ∀ later ∈ starts, offset < later) :
    ofOffset (start :: starts) offset = ⟨0, offset - start⟩ := by
  rw [ofOffset, lineOf_of_forall_lt h hlater]
  rfl

/-- In a list that ascends, the line that is found begins at or before the offset. -/
theorem getElem?_lineOf_le {start offset : Nat} {starts : List Nat} (h : start ≤ offset)
    (hpairwise : starts.Pairwise (· < ·)) :
    (start :: starts)[lineOf (start :: starts) offset]?.getD 0 ≤ offset := by
  induction starts generalizing start with
  | nil =>
      rw [lineOf_of_forall_lt h (List.forall_mem_nil _)]
      exact h
  | cons later starts ih =>
      obtain ⟨hhead, htail⟩ := List.pairwise_cons.mp hpairwise
      by_cases hlater : later ≤ offset
      · rw [lineOf_cons_cons h hlater, List.getElem?_cons_succ]
        exact ih hlater htail
      · have hbehind : ∀ line ∈ later :: starts, offset < line := by
          intro line hline
          rcases List.mem_cons.mp hline with rfl | hline
          · exact Nat.lt_of_not_le hlater
          · exact Nat.lt_trans (Nat.lt_of_not_le hlater) (hhead line hline)
        rw [lineOf_of_forall_lt h hbehind]
        exact h

/-- Looking up an offset among the starts of lines, when `start` is that of the line which is under
way at the head of the text. -/
theorem ofOffset_cons_startsBehind {start place offset : Nat} {t : Text} (hstart : start ≤ place)
    (hoffset : offset ≤ t.length) :
    ofOffset (start :: startsBehind place t) (place + offset) =
      (⟨0, place - start⟩ : Position).onward (endOf (t.take offset)) := by
  induction t generalizing start place offset with
  | nil =>
      obtain rfl : offset = 0 := Nat.le_zero.mp hoffset
      exact ofOffset_of_forall_lt hstart (List.forall_mem_nil _)
  | cons g t ih =>
      cases offset with
      | zero => exact ofOffset_of_forall_lt hstart fun later hlater => lt_of_mem_startsBehind hlater
      | succ offset =>
          have hlength : offset ≤ t.length := Nat.le_of_succ_le_succ hoffset
          have hplace : place + (offset + 1) = place + 1 + offset := by omega
          rw [List.take_succ_cons, hplace, startsBehind,
            show g :: t.take offset = [g] ++ t.take offset from rfl, endOf_append, ← onward_assoc]
          by_cases hg : g = .char '\n'
          · subst hg
            rw [if_pos rfl, ofOffset_cons_cons (by omega) (by omega), ih (Nat.le_refl _) hlength,
              Nat.sub_self, ← onward_assoc]
            rfl
          · have hend : endOf [g] = ⟨0, 1⟩ := by simp [endOf, column, hg, List.takeWhile]
            rw [if_neg hg, ih (Nat.le_succ_of_le hstart) hlength, hend]
            congr 1
            simp only [onward, if_true, mk.injEq, true_and]
            omega

/-- The place of an offset is where the text before it ends. -/
theorem ofOffset_lineStarts {offset : Nat} {t : Text} (h : offset ≤ t.length) :
    ofOffset (lineStarts t) offset = endOf (t.take offset) := by
  have hlookup := ofOffset_cons_startsBehind (Nat.le_refl 0) h
  rw [Nat.zero_add] at hlookup
  exact hlookup.trans (endOf_nil_onward _)

theorem ofOffset_append_left {offset : Nat} {t : Text} (h : offset ≤ t.length) (u : Text) :
    ofOffset (lineStarts (t ++ u)) offset = ofOffset (lineStarts t) offset := by
  have hle : offset ≤ (t ++ u).length := by
    rw [List.length_append]
    omega
  rw [ofOffset_lineStarts hle, ofOffset_lineStarts h, List.take_append_of_le_length h]

theorem ofOffset_append_right {offset : Nat} {u : Text} (h : offset ≤ u.length) (t : Text) :
    ofOffset (lineStarts (t ++ u)) (t.length + offset) =
      (endOf t).onward (ofOffset (lineStarts u) offset) := by
  have hle : t.length + offset ≤ (t ++ u).length := by
    rw [List.length_append]
    omega
  rw [ofOffset_lineStarts hle, ofOffset_lineStarts h, List.take_length_add_append, endOf_append]

/-- The place of an offset of a text is never refused. -/
theorem ofOffset?_lineStarts {offset : Nat} {t : Text} (h : offset ≤ t.length) :
    ofOffset? (lineStarts t) offset = .ok (endOf (t.take offset)) := by
  have hle : (lineStarts t)[lineOf (lineStarts t) offset]?.getD 0 ≤ offset :=
    getElem?_lineOf_le (Nat.zero_le offset) (pairwise_startsBehind 0 t)
  rw [← ofOffset_lineStarts h, ofOffset?, ← Int.ofNat_sub hle]
  rfl

/-! ## The order of places -/

theorem lt_asymm {p q : Position} (h : p < q) : ¬ q < p := by
  have hlines : p.line < q.line ∨ p.line = q.line ∧ p.character < q.character := h
  intro hback
  have hlines' : q.line < p.line ∨ q.line = p.line ∧ q.character < p.character := hback
  omega

theorem endOf_take_lt {offset offset' : Nat} {t : Text} (hlt : offset < offset')
    (h : offset' ≤ t.length) : endOf (t.take offset) < endOf (t.take offset') := by
  obtain ⟨n, rfl⟩ := Nat.exists_eq_add_of_lt hlt
  rw [Nat.add_assoc, List.take_add, endOf_append]
  refine lt_onward_endOf _ (List.ne_nil_of_length_pos ?_)
  rw [List.length_take, List.length_drop]
  omega

/-- Places go up with offsets. -/
theorem not_endOf_take_lt {offset offset' : Nat} {t : Text} (hle : offset ≤ offset')
    (h : offset' ≤ t.length) : ¬ endOf (t.take offset') < endOf (t.take offset) := by
  rcases Nat.eq_or_lt_of_le hle with rfl | hlt
  · exact fun hself => lt_asymm hself hself
  · exact lt_asymm (endOf_take_lt hlt h)

end Stencil.Position
