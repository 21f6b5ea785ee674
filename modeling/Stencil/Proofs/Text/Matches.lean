import Stencil.Proofs.Text.Forms

/-!
# Where matches lie

The places of matches when texts are joined or cut. A form that does not look back finds in an end
of a text what it finds in that end alone, moved (`findFrom_eq_map`). If nothing is read across a
place, the text may be searched in two parts (`findAll_append`); behind a match it always may
(`findAll_read`), and in front of one, too (`findAll_drop`).
-/

namespace Stencil

namespace Found

variable {α : Type}

/-- The same match in a text whose places have moved. -/
def move (place : Nat → Nat) (found : Found α) : Found α :=
  ⟨place found.start, place found.stop, found.value⟩

/-- The same match in a text that has `n` glyphs more in front. -/
def shift (n : Nat) : Found α → Found α := move (n + ·)

@[simp] theorem start_shift (n : Nat) (found : Found α) :
    (found.shift n).start = n + found.start := rfl

@[simp] theorem stop_shift (n : Nat) (found : Found α) :
    (found.shift n).stop = n + found.stop := rfl

@[simp] theorem value_shift (n : Nat) (found : Found α) : (found.shift n).value = found.value := rfl

theorem map_move_eq_self {place : Nat → Nat} {founds : List (Found α)}
    (h : ∀ found ∈ founds, place found.start = found.start ∧ place found.stop = found.stop) :
    founds.map (move place) = founds := by
  conv_rhs => rw [← List.map_id founds]
  refine List.map_congr_left fun found hfound => ?_
  rw [move, (h found hfound).1, (h found hfound).2, id]

theorem map_shift_shift (m n : Nat) (founds : List (Found α)) :
    (founds.map (shift n)).map (shift m) = founds.map (shift (m + n)) := by
  rw [List.map_map]
  exact List.map_congr_left fun found _ => by simp [shift, move, Nat.add_assoc]

/-- Of matches that follow one another, one that begins before another one ends before it. -/
theorem stop_le_of_start_lt {founds : List (Found α)}
    (hpairwise : founds.Pairwise fun found found' => found.stop ≤ found'.start)
    (hpos : ∀ found ∈ founds, found.start < found.stop) {found found' : Found α}
    (h : found ∈ founds) (h' : found' ∈ founds) (hlt : found.start < found'.start) :
    found.stop ≤ found'.start := by
  obtain ⟨i, hi, rfl⟩ := List.getElem_of_mem h
  obtain ⟨j, hj, rfl⟩ := List.getElem_of_mem h'
  have hpairwise := List.pairwise_iff_getElem.mp hpairwise
  rcases Nat.lt_trichotomy i j with hij | rfl | hij
  · exact hpairwise i j hi hj hij
  · exact absurd hlt (Nat.lt_irrefl _)
  · have hle := hpairwise j i hj hi hij
    have hpos := hpos _ h'
    omega

end Found

namespace Form

variable {α : Type} {form : Form α}

/-- A blind form finds the same wherever the text begins. -/
theorem findFrom_eq_map (hblind : form.IsBlind) (t : Text) :
    ∀ (skip place : Nat) (before : Option Glyph), form.findFrom skip place before t =
      (form.findFrom skip 0 none t).map (Found.shift place) := by
  induction t with
  | nil => intro skip place before; cases skip <;> rfl
  | cons g t ih =>
      intro skip place before
      cases skip with
      | succ skip =>
          rw [findFrom, findFrom, ih skip (place + 1), ih skip (0 + 1), Found.map_shift_shift,
            Nat.zero_add]
      | zero =>
          rw [findFrom, findFrom, hblind before none]
          split
          · next value rest _ =>
            rw [ih _ (place + 1), ih _ (0 + 1), List.map_cons, Found.map_shift_shift]
            simp [Found.shift, Found.move]
          · rw [ih 0 (place + 1), ih 0 (0 + 1), Found.map_shift_shift, Nat.zero_add]

/-- A text is searched up to a place and from there on if nothing is read across the place. -/
theorem findFrom_append (hblind : form.IsBlind) (hreader : form.IsReader) {t u : Text}
    (h : ∀ s, s ≠ [] → s <:+ t →
      form none (s ++ u) = (form none s).map fun (value, rest) => (value, rest ++ u)) :
    ∀ {skip : Nat} (place : Nat) (before : Option Glyph), skip ≤ t.length →
      form.findFrom skip place before (t ++ u) = form.findFrom skip place before t ++
        (form.findAll u).map (Found.shift (place + t.length)) := by
  induction t with
  | nil =>
      intro skip place before hskip
      obtain rfl : skip = 0 := Nat.le_zero.mp hskip
      rw [List.nil_append, findFrom_eq_map hblind]
      rfl
  | cons g t ih =>
      have ih := @ih fun s hne hs => h s hne (hs.trans (List.suffix_cons g t))
      have hplace : ∀ place, place + (g :: t).length = place + 1 + t.length := fun place => by
        rw [List.length_cons]; omega
      intro skip place before hskip
      rw [List.cons_append, hplace]
      cases skip with
      | succ skip => exact ih (place + 1) (some g) (Nat.le_of_succ_le_succ hskip)
      | zero =>
          rw [findFrom, findFrom, ← List.cons_append, hblind before none (g :: t ++ u),
            hblind before none (g :: t), h (g :: t) (by simp) (List.suffix_refl _)]
          cases hread : form none (g :: t) with
          | none => exact ih (place + 1) (some g) (Nat.zero_le _)
          | some read =>
              obtain ⟨value, rest⟩ := read
              obtain ⟨read, hne, heq⟩ := hreader _ _ _ _ hread
              have hlength : read.length + rest.length = t.length + 1 := by
                rw [← List.length_append, ← heq, List.length_cons]
              have htaken : taken (t ++ u) (rest ++ u) = taken t rest := by
                simp only [taken, List.length_append]
                omega
              simp only [Option.map_some, htaken]
              rw [ih (place + 1) (some g) (by simp only [taken]; omega), List.cons_append]

theorem findAll_append (hblind : form.IsBlind) (hreader : form.IsReader) {t u : Text}
    (h : ∀ s, s ≠ [] → s <:+ t →
      form none (s ++ u) = (form none s).map fun (value, rest) => (value, rest ++ u)) :
    form.findAll (t ++ u) = form.findAll t ++ (form.findAll u).map (Found.shift t.length) := by
  have := findFrom_append hblind hreader h 0 none (Nat.zero_le _)
  rwa [Nat.zero_add] at this

theorem findFrom_of_length_le {t : Text} : ∀ {skip : Nat} (place : Nat) (before : Option Glyph),
    t.length ≤ skip → form.findFrom skip place before t = [] := by
  induction t with
  | nil => intro skip place before _; cases skip <;> rfl
  | cons g t ih =>
      intro skip place before h
      cases skip with
      | zero => exact absurd h (Nat.not_succ_le_zero _)
      | succ skip => exact ih (place + 1) (some g) (Nat.le_of_succ_le_succ h)

theorem findFrom_of_isAbsent (hblind : form.IsBlind) {t : Text} (h : form.IsAbsent t) :
    ∀ place before, form.findFrom 0 place before t = [] := by
  induction t with
  | nil => exact fun _ _ => rfl
  | cons g t ih =>
      intro place before
      rw [findFrom, hblind before none, h (g :: t) (by simp) (List.suffix_refl _)]
      exact ih h.tail (place + 1) (some g)

theorem findFrom_skip (s t : Text) (place : Nat) (before : Option Glyph) :
    form.findFrom s.length place before (s ++ t) =
      form.findFrom 0 (place + s.length) (s.getLast?.or before) t := by
  induction s generalizing place before with
  | nil => rfl
  | cons g s ih =>
      rw [List.cons_append, List.length_cons, findFrom, ih,
        show place + 1 + s.length = place + (s.length + 1) by omega]
      congr 1
      cases s <;> simp [List.getLast?_cons]

theorem taken_append (g : Glyph) (s t : Text) : taken (s ++ t) t = (g :: s).length := by
  rw [taken, List.length_append, List.length_cons]
  omega

/-- Behind what is read at its head a text is searched by itself. -/
theorem findAll_read (hblind : form.IsBlind) {s t : Text} {value : α} (hne : s ≠ [])
    (h : form none (s ++ t) = some (value, t)) :
    form.findAll (s ++ t) =
      ⟨0, s.length, value⟩ :: (form.findAll t).map (Found.shift s.length) := by
  obtain ⟨g, s, rfl⟩ := List.exists_cons_of_ne_nil hne
  rw [findAll, List.cons_append, findFrom, ← List.cons_append, h]
  simp only [taken_append g, List.length_cons, Nat.add_sub_cancel, findFrom_skip]
  rw [findFrom_eq_map hblind, Nat.zero_add, Nat.zero_add, Nat.add_comm]
  rfl

theorem cutFrom_blind (hblind : form.IsBlind) (t : Text) : ∀ (skip : Nat) (before : Option Glyph),
    form.cutFrom skip before t = form.cutFrom skip none t := by
  intro skip before
  cases t with
  | nil => cases skip <;> rfl
  | cons g t =>
      cases skip with
      | zero => rw [cutFrom, cutFrom, hblind before none]
      | succ skip => rfl

theorem cutFrom_skip (hblind : form.IsBlind) (s t : Text) (before : Option Glyph) :
    form.cutFrom s.length before (s ++ t) = form.cutAll t := by
  induction s generalizing before with
  | nil => exact cutFrom_blind hblind t 0 before
  | cons g s ih => exact ih (some g)

theorem cutAll_read (hblind : form.IsBlind) {s t : Text} {value : α} (hne : s ≠ [])
    (h : form none (s ++ t) = some (value, t)) : form.cutAll (s ++ t) = form.cutAll t := by
  obtain ⟨g, s, rfl⟩ := List.exists_cons_of_ne_nil hne
  rw [cutAll, List.cons_append, cutFrom, ← List.cons_append, h]
  simp only [taken_append g, List.length_cons, Nat.add_sub_cancel]
  exact cutFrom_skip hblind s t (some g)

/-- Where nothing is read at its first glyph, a text is searched from the next one on. -/
theorem findAll_cons (hblind : form.IsBlind) {g : Glyph} {t : Text} (h : form none (g :: t) = none) :
    form.findAll (g :: t) = (form.findAll t).map (Found.shift 1) := by
  rw [findAll, findFrom, h]
  exact findFrom_eq_map hblind t 0 1 (some g)

theorem cutAll_cons (hblind : form.IsBlind) {g : Glyph} {t : Text} (h : form none (g :: t) = none) :
    form.cutAll (g :: t) = g :: form.cutAll t := by
  rw [cutAll, cutFrom, h]
  exact congrArg (List.cons g) (cutFrom_blind hblind t 0 (some g))

/-- A cut goes past a stretch in which nothing is read. -/
theorem cutAll_append (hblind : form.IsBlind) {s t : Text}
    (h : ∀ s', s' ≠ [] → s' <:+ s → form none (s' ++ t) = none) :
    form.cutAll (s ++ t) = s ++ form.cutAll t := by
  induction s with
  | nil => rfl
  | cons g s ih =>
      have hnone := h (g :: s) (by simp) (List.suffix_refl _)
      rw [List.cons_append] at hnone
      rw [List.cons_append, cutAll_cons hblind hnone,
        ih fun s' hne hs => h s' hne (hs.trans (List.suffix_cons g s)), List.cons_append]

/-- A replacement goes past a stretch in which nothing is read behind what stands before. -/
theorem replaceFirstFrom_append_of_passed {s t : Text} {before : Option Glyph}
    (h : ∀ x s', s = x ++ s' → s' ≠ [] → form (x.getLast?.or before) (s' ++ t) = none)
    (write : α → Text) : form.replaceFirstFrom write before (s ++ t) =
      s ++ form.replaceFirstFrom write (s.getLast?.or before) t := by
  induction s generalizing before with
  | nil => rfl
  | cons g s ih =>
      have hnone := h [] (g :: s) rfl (by simp)
      rw [List.getLast?_nil, Option.none_or, List.cons_append] at hnone
      rw [List.cons_append, replaceFirstFrom, hnone, ih fun x s' hs hne => ?_]
      · cases s <;> simp [List.getLast?_cons]
      · have hnext := h (g :: x) s' (by rw [hs]; rfl) hne
        cases x <;> simpa [List.getLast?_cons] using hnext

/-- A replacement goes past a stretch in which nothing is read. -/
theorem replaceFirstFrom_append {s t : Text}
    (h : ∀ s', s' ≠ [] → s' <:+ s → ∀ before, form before (s' ++ t) = none) (write : α → Text)
    (before : Option Glyph) : form.replaceFirstFrom write before (s ++ t) =
      s ++ form.replaceFirstFrom write (s.getLast?.or before) t :=
  replaceFirstFrom_append_of_passed (fun x s' hs hne => h s' hne ⟨x, hs.symm⟩ _) write

/-- From a match on the text is searched as if it began there. -/
theorem findFrom_drop (hblind : form.IsBlind) {t : Text} :
    ∀ {skip place : Nat} {before : Option Glyph} {found : Found α},
      found ∈ form.findFrom skip place before t → ∃ earlier first later n,
        found.start = place + n ∧ form.findAll (t.drop n) = first :: later ∧
          first.shift found.start = found ∧ form.findFrom skip place before t =
            earlier ++ (form.findAll (t.drop n)).map (Found.shift found.start) := by
  induction t with
  | nil => intro skip place before found h; cases skip <;> simp [findFrom] at h
  | cons g t ih =>
      have hlater : ∀ {skip place : Nat} {before : Option Glyph} {found : Found α},
          found ∈ form.findFrom skip (place + 1) before t → ∃ earlier first later n,
            found.start = place + n ∧ form.findAll ((g :: t).drop n) = first :: later ∧
              first.shift found.start = found ∧ form.findFrom skip (place + 1) before t =
                earlier ++ (form.findAll ((g :: t).drop n)).map (Found.shift found.start) := by
        intro skip place before found h
        obtain ⟨earlier, first, later, n, hstart, hfirst, hshift, heq⟩ := ih h
        exact ⟨earlier, first, later, n + 1, by omega, hfirst, hshift, heq⟩
      intro skip place before found h
      cases skip with
      | succ skip => exact hlater h
      | zero =>
          have hself := findFrom_eq_map hblind (g :: t) 0 place before
          cases hread : form before (g :: t) with
          | none =>
              rw [findFrom, hread] at h ⊢
              exact hlater h
          | some read =>
              obtain ⟨value, rest⟩ := read
              rw [findFrom, hread] at h hself ⊢
              rcases List.mem_cons.mp h with rfl | h
              · obtain ⟨first, later, hfirst, hshift, -⟩ := List.map_eq_cons_iff.mp hself.symm
                exact ⟨[], first, later, 0, rfl, hfirst, hshift, hself⟩
              · obtain ⟨earlier, first, later, n, hstart, hfirst, hshift, heq⟩ := hlater h
                exact ⟨⟨place, place + taken t rest, value⟩ :: earlier, first, later, n, hstart,
                  hfirst, hshift, congrArg (List.cons _) heq⟩

theorem findAll_drop (hblind : form.IsBlind) {t : Text} {found : Found α}
    (h : found ∈ form.findAll t) : ∃ earlier first later,
      form.findAll (t.drop found.start) = first :: later ∧ first.shift found.start = found ∧
        form.findAll t =
          earlier ++ (form.findAll (t.drop found.start)).map (Found.shift found.start) := by
  obtain ⟨earlier, first, later, n, hstart, hfirst, hshift, heq⟩ := findFrom_drop hblind h
  rw [Nat.zero_add] at hstart
  rw [hstart] at hshift heq ⊢
  exact ⟨earlier, first, later, hfirst, hshift, heq⟩

/-- Matches lie in the text and follow one another. -/
theorem bounds_findFrom (hreader : form.IsReader) {t : Text} :
    ∀ (skip place : Nat) (before : Option Glyph),
      (∀ found ∈ form.findFrom skip place before t, place + skip ≤ found.start ∧
        found.start < found.stop ∧ found.stop ≤ place + t.length) ∧
      (form.findFrom skip place before t).Pairwise fun found found' => found.stop ≤ found'.start := by
  induction t with
  | nil => intro skip place before; cases skip <;> simp [findFrom]
  | cons g t ih =>
      intro skip place before
      cases skip with
      | succ skip =>
          obtain ⟨hbounds, hpairwise⟩ := ih skip (place + 1) (some g)
          refine ⟨fun found hfound => ?_, hpairwise⟩
          obtain ⟨hstart, hne, hstop⟩ := hbounds found hfound
          rw [List.length_cons]
          omega
      | zero =>
          rw [findFrom]
          split
          · next value rest hread =>
            obtain ⟨read, hne, heq⟩ := hreader _ _ _ _ hread
            have hlength : read.length + rest.length = t.length + 1 := by
              rw [← List.length_append, ← heq, List.length_cons]
            have hpos : 0 < read.length := List.length_pos_iff.mpr hne
            obtain ⟨hbounds, hpairwise⟩ := ih (taken t rest - 1) (place + 1) (some g)
            simp only [taken] at hbounds hpairwise ⊢
            rw [List.pairwise_cons, List.length_cons]
            refine ⟨fun found hfound => ?_, fun found hfound => ?_, hpairwise⟩
            · rcases List.mem_cons.mp hfound with rfl | hfound
              · dsimp only
                omega
              · have := hbounds found hfound
                omega
            · have := hbounds found hfound
              dsimp only
              omega
          · obtain ⟨hbounds, hpairwise⟩ := ih 0 (place + 1) (some g)
            refine ⟨fun found hfound => ?_, hpairwise⟩
            have := hbounds found hfound
            rw [List.length_cons]
            omega

/-- A match that begins before another one ends before it. -/
theorem stop_le_of_start_lt (hreader : form.IsReader) {t : Text} {found found' : Found α}
    (h : found ∈ form.findAll t) (h' : found' ∈ form.findAll t) (hlt : found.start < found'.start) :
    found.stop ≤ found'.start := by
  obtain ⟨hbounds, hpairwise⟩ := bounds_findFrom hreader (t := t) 0 0 none
  exact Found.stop_le_of_start_lt hpairwise (fun found hfound => (hbounds found hfound).2.1) h h' hlt

/-- Where something is read there is a match, be it one that begins earlier. -/
theorem exists_found_of_read (hblind : form.IsBlind) (hreader : form.IsReader) {t u : Text}
    (hread : form none u ≠ none) : ∀ {skip : Nat} (place : Nat) (before : Option Glyph),
      skip ≤ t.length → ∃ found ∈ form.findFrom skip place before (t ++ u),
        found.start ≤ place + t.length ∧ place + t.length < found.stop := by
  have hne : u ≠ [] := fun hnil => hread (by
    rw [hnil, Option.eq_none_iff_forall_ne_some]
    rintro ⟨value, rest⟩ h
    obtain ⟨read, hne, heq⟩ := hreader _ _ _ _ h
    exact hne (List.append_eq_nil_iff.mp heq.symm).1)
  induction t with
  | nil =>
      intro skip place before hskip
      obtain rfl : skip = 0 := Nat.le_zero.mp hskip
      obtain ⟨⟨value, rest⟩, h⟩ := Option.ne_none_iff_exists'.mp hread
      obtain ⟨g, u, rfl⟩ := List.exists_cons_of_ne_nil hne
      obtain ⟨read, hread, heq⟩ := hreader _ _ _ _ h
      have hlength := congrArg List.length heq
      have hpos := List.length_pos_iff.mpr hread
      rw [List.length_append, List.length_cons] at hlength
      refine ⟨⟨place, place + taken u rest, value⟩, ?_, Nat.le_refl _, ?_⟩
      · rw [List.nil_append, findFrom, hblind before none, h]
        exact List.mem_cons_self
      · simp only [taken, List.length_nil]
        omega
  | cons g t ih =>
      have hplace : ∀ place, place + (g :: t).length = place + 1 + t.length := fun place => by
        rw [List.length_cons]
        omega
      intro skip place before hskip
      rw [List.cons_append, hplace]
      cases skip with
      | succ skip => exact ih (place + 1) (some g) (Nat.le_of_succ_le_succ hskip)
      | zero =>
          rw [findFrom]
          cases h : form before (g :: (t ++ u)) with
          | none => exact ih (place + 1) (some g) (Nat.zero_le _)
          | some result =>
              obtain ⟨value, rest⟩ := result
              dsimp only
              by_cases hover : taken (t ++ u) rest - 1 ≤ t.length
              · obtain ⟨found, hfound, hbounds⟩ := ih (place + 1) (some g) hover
                exact ⟨found, List.mem_cons_of_mem _ hfound, hbounds⟩
              · exact ⟨_, List.mem_cons_self, by dsimp only; omega, by dsimp only; omega⟩

end Form

end Stencil
