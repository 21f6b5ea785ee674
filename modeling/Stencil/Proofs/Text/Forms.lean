import Stencil.Text.Search
import Mathlib.Data.List.Infix

/-!
# Searches

What `findAll`, `cutAll` and `replaceFirst` do, said without the count of glyphs to skip: every
match is a form read at some place (`exists_split_of_mem_findFrom`), and a form that can be read
nowhere leaves the text as it is (`cutAll_eq_self`). Most forms do not look at the glyph before a
match (`IsBlind`), so that an end of a text is searched as if it stood alone.
-/

namespace Stencil

namespace Text

theorem slice_append (t u v : Text) :
    slice (t ++ (u ++ v)) t.length (t.length + u.length) = u := by
  rw [slice, List.drop_left, Nat.add_sub_cancel_left, List.take_left]

theorem take_length_sub (t u : Text) : (t ++ u).take ((t ++ u).length - u.length) = t := by
  rw [List.length_append, Nat.add_sub_cancel, List.take_left]

/-- An end of two texts joined is an end of the second, or all of it behind an end of the first. -/
theorem suffix_append_iff {v t u : Text} :
    v <:+ t ++ u ↔ v <:+ u ∨ ∃ s, s ≠ [] ∧ s <:+ t ∧ v = s ++ u := by
  constructor
  · rintro ⟨x, hx⟩
    rcases List.append_eq_append_iff.mp hx with ⟨s, rfl, rfl⟩ | ⟨s, rfl, rfl⟩
    · rcases s with _ | ⟨g, s⟩
      · exact Or.inl ⟨[], rfl⟩
      · exact Or.inr ⟨g :: s, by simp, ⟨x, rfl⟩, rfl⟩
    · exact Or.inl ⟨s, rfl⟩
  · rintro (⟨x, rfl⟩ | ⟨s, -, ⟨x, rfl⟩, rfl⟩)
    · exact ⟨t ++ x, by simp⟩
    · exact ⟨x, by simp⟩

/-- A cut lies before a stretch of a text, inside it or behind it. -/
theorem cut_cases {t u x w v : Text} (h : t ++ u = x ++ (w ++ v)) :
    (∃ z, x = t ++ z ∧ u = z ++ (w ++ v)) ∨
      (∃ q q', q ≠ [] ∧ q' ≠ [] ∧ w = q ++ q' ∧ t = x ++ q ∧ u = q' ++ v) ∨
      ∃ y, t = x ++ (w ++ y) ∧ v = y ++ u := by
  rcases List.append_eq_append_iff.mp h with ⟨z, hx, hu⟩ | ⟨q, rfl, hq⟩
  · exact Or.inl ⟨z, hx, hu⟩
  · rcases List.append_eq_append_iff.mp hq with ⟨y, rfl, hv⟩ | ⟨q', rfl, hu⟩
    · exact Or.inr (Or.inr ⟨y, rfl, hv⟩)
    · by_cases hleft : q = []
      · subst hleft
        exact Or.inl ⟨[], by simp, by simp [hu]⟩
      · by_cases hright : q' = []
        · subst hright
          exact Or.inr (Or.inr ⟨[], by simp, by simpa using hu.symm⟩)
        · exact Or.inr (Or.inl ⟨q, q', hleft, hright, rfl, rfl, hu⟩)

/-- A glyph that the second of two texts lacks stands in the first. -/
theorem append_eq_append_cons_left {g : Glyph} {t u x y : Text} (hg : g ∉ u)
    (h : t ++ u = x ++ g :: y) : ∃ y', t = x ++ g :: y' ∧ y = y' ++ u := by
  rcases List.append_eq_append_iff.mp h with ⟨w, rfl, hu⟩ | ⟨w, rfl, hy⟩
  · exact absurd (by rw [hu]; simp) hg
  · cases w with
    | nil => exact absurd (by rw [← List.nil_append u, ← hy]; simp) hg
    | cons a w =>
        obtain ⟨rfl, rfl⟩ := List.cons.inj hy
        exact ⟨w, rfl, rfl⟩

/-- A glyph that the first of two texts lacks stands in the second. -/
theorem append_eq_append_cons_right {g : Glyph} {t u x y : Text} (hg : g ∉ t)
    (h : t ++ u = x ++ g :: y) : ∃ x', x = t ++ x' ∧ u = x' ++ g :: y := by
  rcases List.append_eq_append_iff.mp h with ⟨w, rfl, hu⟩ | ⟨w, rfl, hy⟩
  · exact ⟨w, rfl, hu⟩
  · cases w with
    | nil => exact ⟨[], by simp, by simpa using hy.symm⟩
    | cons a w =>
        obtain ⟨rfl, -⟩ := List.cons.inj hy
        exact absurd (by simp) hg

theorem upTo?_eq_some_iff {mark : Glyph} {t v rest : Text} :
    upTo? mark t = some (v, rest) ↔ t = v ++ mark :: rest ∧ mark ∉ v := by
  induction t generalizing v with
  | nil => simp [upTo?]
  | cons g t ih =>
      rw [upTo?]
      by_cases hg : g = mark
      · rw [if_pos hg]
        constructor
        · intro h
          obtain ⟨rfl, rfl⟩ := Prod.mk.inj (Option.some.inj h)
          exact ⟨by rw [hg]; rfl, by simp⟩
        · rintro ⟨heq, hnot⟩
          cases v with
          | nil => rw [(List.cons.inj heq).2]
          | cons a v => exact absurd ((List.cons.inj heq).1 ▸ hg ▸ List.mem_cons_self) hnot
      · rw [if_neg hg, Option.map_eq_some_iff]
        constructor
        · rintro ⟨⟨v', rest'⟩, h, heq⟩
          obtain ⟨rfl, rfl⟩ := Prod.mk.inj heq
          obtain ⟨rfl, hnot⟩ := ih.mp h
          refine ⟨rfl, fun hm => ?_⟩
          rcases List.mem_cons.mp hm with rfl | hm
          · exact hg rfl
          · exact hnot hm
        · rintro ⟨heq, hnot⟩
          cases v with
          | nil => exact absurd (List.cons.inj heq).1 hg
          | cons a v =>
              obtain ⟨rfl, rfl⟩ := List.cons.inj heq
              exact ⟨(v, rest), ih.mpr ⟨rfl, fun hm => hnot (List.mem_cons_of_mem _ hm)⟩, rfl⟩

theorem dropBlanks_eq_cons_iff {t u : Text} {g : Glyph} :
    dropBlanks t = g :: u ↔
      ∃ gap : Text, t = gap ++ g :: u ∧ gap.isBlank = true ∧ g.isBlank = false := by
  constructor
  · intro h
    refine ⟨t.takeWhile Glyph.isBlank, ?_, List.all_takeWhile, ?_⟩
    · rw [← h, dropBlanks, List.takeWhile_append_dropWhile]
    · have := List.head?_dropWhile_not Glyph.isBlank t
      rw [show t.dropWhile Glyph.isBlank = g :: u from h] at this
      simpa using this
  · rintro ⟨gap, rfl, hgap, hg⟩
    rw [dropBlanks, List.dropWhile_append_of_pos (List.all_eq_true.mp hgap),
      List.dropWhile_cons_of_neg (by simp [hg])]

/-- Leaving out blanks goes no further than the first glyph that is none. -/
theorem dropBlanks_append_cons {g : Glyph} (hg : g.isBlank = false) (t u : Text) :
    dropBlanks (t ++ g :: u) = dropBlanks t ++ g :: u := by
  induction t with
  | nil => exact List.dropWhile_cons_of_neg (by simp [hg])
  | cons a t ih =>
      simp only [dropBlanks, List.cons_append, List.dropWhile_cons]
      split
      · exact ih
      · rfl

end Text

namespace Form

variable {α : Type} {form : Form α}

/-- A form that does not look at what stands before. -/
def IsBlind (form : Form α) : Prop := ∀ before before' t, form before t = form before' t

/-- A form that reads something at the head of a text and leaves the end of it. -/
def IsReader (form : Form α) : Prop :=
  ∀ before t value rest, form before t = some (value, rest) → ∃ read, read ≠ [] ∧ t = read ++ rest

/-- A form can be read nowhere in a text. -/
def IsAbsent (form : Form α) (t : Text) : Prop := ∀ v, v ≠ [] → v <:+ t → form none v = none

theorem IsAbsent.tail {g : Glyph} {t : Text} (h : form.IsAbsent (g :: t)) : form.IsAbsent t :=
  fun v hne hv => h v hne (hv.trans (List.suffix_cons g t))

theorem isAbsent_of_findFrom_eq_nil (hblind : form.IsBlind) {place : Nat} {before : Option Glyph}
    {t : Text} (h : form.findFrom 0 place before t = []) : form.IsAbsent t := by
  induction t generalizing place before with
  | nil => exact fun v hne hv => absurd (List.suffix_nil.mp hv) hne
  | cons g t ih =>
      rw [findFrom] at h
      split at h
      · cases h
      · next hnone =>
        intro v hne hv
        rcases List.suffix_cons_iff.mp hv with rfl | hv
        · rw [hblind none before, hnone]
        · exact ih h v hne hv

theorem isAbsent_of_findAll_eq_nil (hblind : form.IsBlind) {t : Text} (h : form.findAll t = []) :
    form.IsAbsent t := isAbsent_of_findFrom_eq_nil hblind h

theorem cutFrom_eq_self (hblind : form.IsBlind) {t : Text} (h : form.IsAbsent t)
    (before : Option Glyph) : form.cutFrom 0 before t = t := by
  induction t generalizing before with
  | nil => rfl
  | cons g t ih =>
      rw [cutFrom, hblind before none, h (g :: t) (by simp) (List.suffix_refl _), ih h.tail]

theorem cutAll_eq_self (hblind : form.IsBlind) {t : Text} (h : form.IsAbsent t) :
    form.cutAll t = t := cutFrom_eq_self hblind h none

theorem firstFrom_eq_none (hblind : form.IsBlind) {t : Text} (h : form.IsAbsent t)
    (before : Option Glyph) : form.firstFrom before t = none := by
  induction t generalizing before with
  | nil => rfl
  | cons g t ih =>
      rw [firstFrom, hblind before none, h (g :: t) (by simp) (List.suffix_refl _), ih h.tail]

/-- Every match is what the form reads at some place, and ends where the form stops. -/
theorem exists_split_of_mem_findFrom (hreader : form.IsReader) {t : Text} :
    ∀ {skip place : Nat} {before : Option Glyph} {found : Found α},
      found ∈ form.findFrom skip place before t →
      ∃ u before' read rest, t = u ++ (read ++ rest) ∧ read ≠ [] ∧
        form before' (read ++ rest) = some (found.value, rest) ∧
        found.start = place + u.length ∧ found.stop = found.start + read.length := by
  induction t with
  | nil => intro skip place before found h; cases skip <;> simp [findFrom] at h
  | cons g t ih =>
      have hlater : ∀ {skip : Nat} {place : Nat} {before : Option Glyph} {found : Found α},
          found ∈ form.findFrom skip (place + 1) before t →
          ∃ u before' read rest, g :: t = u ++ (read ++ rest) ∧ read ≠ [] ∧
            form before' (read ++ rest) = some (found.value, rest) ∧
            found.start = place + u.length ∧ found.stop = found.start + read.length := by
        intro skip place before found h
        obtain ⟨u, before', read, rest, rfl, hne, hread, hstart, hstop⟩ := ih h
        refine ⟨g :: u, before', read, rest, rfl, hne, hread, ?_, hstop⟩
        rw [hstart, List.length_cons]
        omega
      intro skip place before found h
      cases skip with
      | succ skip =>
          rw [findFrom] at h
          exact hlater h
      | zero =>
          rw [findFrom] at h
          split at h
          · next value rest hread =>
            rcases List.mem_cons.mp h with rfl | h
            · obtain ⟨read, hne, heq⟩ := hreader _ _ _ _ hread
              refine ⟨[], before, read, rest, by rw [List.nil_append, heq], hne, heq ▸ hread, rfl, ?_⟩
              have := congrArg List.length heq
              simp only [List.length_cons, List.length_append] at this
              simp only [taken]
              omega
            · exact hlater h
          · exact hlater h

/-- A replacement changes nothing, or exchanges what the form reads at one place. -/
theorem replaceFirstFrom_cases (hreader : form.IsReader) (write : α → Text) (t : Text) :
    ∀ before, form.replaceFirstFrom write before t = t ∨
      ∃ u before' value read rest, t = u ++ (read ++ rest) ∧
        form before' (read ++ rest) = some (value, rest) ∧
        form.replaceFirstFrom write before t = u ++ (write value ++ rest) := by
  induction t with
  | nil => exact fun before => Or.inl rfl
  | cons g t ih =>
      intro before
      rw [replaceFirstFrom]
      split
      · next value rest hread =>
        obtain ⟨read, -, heq⟩ := hreader _ _ _ _ hread
        exact Or.inr ⟨[], before, value, read, rest, heq, heq ▸ hread, rfl⟩
      · rcases ih (some g) with h | ⟨u, before', value, read, rest, rfl, hread, h⟩
        · exact Or.inl (by rw [h])
        · exact Or.inr ⟨g :: u, before', value, read, rest, rfl, hread, by rw [h]; rfl⟩

end Form

end Stencil
