import Stencil.Proofs.Tag.Search
import Stencil.Proofs.Text.Matches

/-!
# Cutting a text beside its tags

A tag goes up to the next `>`, so what is found behind such a glyph is found there alone
(`findAll_append_of_end`), and a comment that holds no angle brackets can only be the end of a tag
that has begun before it: exchanging the comment leaves every tag where it is, but for the place
where that one ends (`findAll_wrap`). So the closing tags of a text are counted part by part
(`length_closingsOf_append_wrap`, `closingsOf_cut`).

Both searches for tags read what stands before the first `>` (`isTagForm_startForm`,
`isTagForm_anyForm`), and the lemmas are stated for any form that does.
-/

namespace Stencil

open Marker

namespace Text

theorem takeWhile_append_cons {p : Glyph → Bool} {g : Glyph} (hg : p g = false) (t u : Text) :
    (t ++ g :: u).takeWhile p = t.takeWhile p := by
  induction t with
  | nil => simp [hg]
  | cons a t ih => simp only [List.cons_append, List.takeWhile_cons, ih]

theorem dropWhile_append_cons {p : Glyph → Bool} {g : Glyph} (hg : p g = false) (t u : Text) :
    (t ++ g :: u).dropWhile p = t.dropWhile p ++ g :: u := by
  induction t with
  | nil => simp [hg]
  | cons a t ih =>
      simp only [List.cons_append, List.dropWhile_cons, ih]
      split <;> rfl

theorem upTo?_eq_none_iff {mark : Glyph} {t : Text} : upTo? mark t = none ↔ mark ∉ t := by
  induction t with
  | nil => simp [upTo?]
  | cons g t ih =>
      rw [upTo?]
      split
      · next h => simp [h]
      · next h => simp [ih, Ne.symm h]

theorem upTo?_cons_of_ne {g mark : Glyph} (h : g ≠ mark) (t : Text) :
    upTo? mark (g :: t) = (upTo? mark t).map fun (r, rest) => (g :: r, rest) := by
  rw [upTo?, if_neg h]

theorem upTo?_append {mark : Glyph} {t : Text} (h : mark ∈ t) (u : Text) :
    upTo? mark (t ++ u) = (upTo? mark t).map fun (r, rest) => (r, rest ++ u) := by
  induction t with
  | nil => cases h
  | cons g t ih =>
      rw [List.cons_append, upTo?, upTo?]
      by_cases hg : g = mark
      · rw [if_pos hg, if_pos hg]
        rfl
      · rw [if_neg hg, if_neg hg, ih ((List.mem_cons.mp h).resolve_left (Ne.symm hg))]
        cases upTo? mark t <;> rfl

end Text

namespace Tag

/-- A form that reads a tag: what it reads stands before the first `>` and begins with `<`. It
looks no further than the next `<`, and comments are no tags. -/
structure IsTagForm {α : Type} (form : Form α) (head? : Text → Option α) : Prop where
  form_eq : ∀ before t, form before t =
    (Text.upTo? (.char '>') t).bind fun (r, rest) => (head? r).map fun value => (value, rest)
  opens : ∀ {r value}, head? r = some value → r.head? = some (.char '<')
  stops : ∀ {r : Text} (z : Text), r ≠ [] → head? (r ++ .char '<' :: z) = head? r
  comment : ∀ z, head? (.char '<' :: .char '!' :: z) = none

/-! ## The two searches -/

/-- The name of a tag whose end has been cut off. -/
def nameHead? : Text → Option Text
  | [] => none
  | g :: t => if g.isLetter then some (nameOfRun (g :: t.takeWhile continuesName)) else none

theorem nameAt?_eq (t : Text) : nameAt? t =
    (Text.upTo? (.char '>') t).bind fun (r, rest) => (nameHead? r).map fun name => (name, rest) := by
  have hend : continuesName (.char '>') = false := by decide +kernel
  cases hup : Text.upTo? (.char '>') t with
  | none =>
      cases t with
      | nil => rfl
      | cons g t =>
          have hnot := Text.upTo?_eq_none_iff.mp hup
          have hrest : Text.upTo? (.char '>') (t.dropWhile continuesName) = none :=
            Text.upTo?_eq_none_iff.mpr fun hm =>
              hnot (List.mem_cons_of_mem g (List.dropWhile_subset continuesName hm))
          rw [nameAt?, hrest]
          split <;> rfl
  | some split =>
      obtain ⟨r, rest⟩ := split
      obtain ⟨rfl, hnot⟩ := Text.upTo?_eq_some_iff.mp hup
      cases r with
      | nil => rfl
      | cons g r =>
          have hrest : Text.upTo? (.char '>') (r.dropWhile continuesName ++ .char '>' :: rest) =
              some (r.dropWhile continuesName, rest) :=
            Text.upTo?_eq_some_iff.mpr ⟨rfl, fun hm =>
              hnot (List.mem_cons_of_mem g (List.dropWhile_subset continuesName hm))⟩
          rw [List.cons_append, nameAt?, Text.takeWhile_append_cons hend,
            Text.dropWhile_append_cons hend, hrest]
          simp only [Option.bind_some, nameHead?]
          split <;> rfl

theorem nameHead?_append (r z : Text) : nameHead? (r ++ .char '<' :: z) = nameHead? r := by
  have hstart : continuesName (.char '<') = false := by decide +kernel
  cases r with
  | nil => rfl
  | cons g r => rw [List.cons_append, nameHead?, nameHead?, Text.takeWhile_append_cons hstart]

/-- The name of a start tag whose end has been cut off. -/
def startHead? : Text → Option Text
  | .char '<' :: r => nameHead? r
  | _ => none

/-- The sort and the name of a tag whose end has been cut off. -/
def anyHead? : Text → Option (Bool × Text)
  | .char '<' :: .char '/' :: r => (nameHead? r).map fun name => (true, name)
  | .char '<' :: r => (nameHead? r).map fun name => (false, name)
  | _ => none

theorem startForm_of_not_start {g : Glyph} (hg : g ≠ .char '<') (before : Option Glyph) (t : Text) :
    startForm before (g :: t) = none := by
  unfold startForm
  split
  · next heq => exact absurd (List.cons.inj heq).1 hg
  · rfl

theorem startHead?_of_not_start {g : Glyph} (hg : g ≠ .char '<') (r : Text) :
    startHead? (g :: r) = none := by
  unfold startHead?
  split
  · next heq => exact absurd (List.cons.inj heq).1 hg
  · rfl

theorem isTagForm_startForm : IsTagForm startForm startHead? where
  form_eq before t := by
    rcases t with _ | ⟨g, t⟩
    · rfl
    · by_cases hg : g = .char '<'
      · subst hg
        rw [Text.upTo?_cons_of_ne (by decide)]
        show nameAt? t = _
        rw [nameAt?_eq]
        cases Text.upTo? (.char '>') t <;> rfl
      · rw [startForm_of_not_start hg before t, Text.upTo?]
        split
        · rfl
        · cases Text.upTo? (.char '>') t with
          | none => rfl
          | some split => simp [startHead?_of_not_start hg]
  opens h := by
    unfold startHead? at h
    split at h
    · rfl
    · cases h
  stops {r} z hne := by
    obtain ⟨g, r, rfl⟩ := List.exists_cons_of_ne_nil hne
    by_cases hg : g = .char '<'
    · subst hg
      exact nameHead?_append r z
    · rw [List.cons_append, startHead?_of_not_start hg, startHead?_of_not_start hg]
  comment z := rfl

theorem anyHead?_slash (r : Text) :
    anyHead? (.char '<' :: .char '/' :: r) = (nameHead? r).map fun name => (true, name) := rfl

theorem anyHead?_of_not_slash {r : Text} (h : r.head? ≠ some (.char '/')) :
    anyHead? (.char '<' :: r) = (nameHead? r).map fun name => (false, name) := by
  unfold anyHead?
  split
  · next heq =>
    obtain rfl := (List.cons.inj heq).2
    exact absurd rfl h
  · next heq => rw [(List.cons.inj heq).2]
  · next hne => exact absurd rfl (hne r)

theorem anyHead?_of_not_start {g : Glyph} (hg : g ≠ .char '<') (r : Text) :
    anyHead? (g :: r) = none := by
  unfold anyHead?
  split
  · next heq => exact absurd (List.cons.inj heq).1 hg
  · next heq => exact absurd (List.cons.inj heq).1 hg
  · rfl

theorem anyForm_of_not_slash (before : Option Glyph) {t : Text} (h : t.head? ≠ some (.char '/')) :
    anyForm before (.char '<' :: t) =
      (nameAt? t).map fun (name, after) => ((false, name), after) := by
  unfold anyForm
  split
  · next heq =>
    obtain rfl := (List.cons.inj heq).2
    exact absurd rfl h
  · next heq => rw [(List.cons.inj heq).2]
  · next hne => exact absurd rfl (hne t)

theorem anyForm_of_not_start {g : Glyph} (hg : g ≠ .char '<') (before : Option Glyph) (t : Text) :
    anyForm before (g :: t) = none := by
  unfold anyForm
  split
  · next heq => exact absurd (List.cons.inj heq).1 hg
  · next heq => exact absurd (List.cons.inj heq).1 hg
  · rfl

theorem isTagForm_anyForm : IsTagForm anyForm anyHead? where
  form_eq before t := by
    rcases t with _ | ⟨g, t⟩
    · rfl
    · by_cases hg : g = .char '<'
      · subst hg
        rw [Text.upTo?_cons_of_ne (by decide)]
        by_cases hslash : t.head? = some (.char '/')
        · obtain ⟨t', rfl⟩ : ∃ t', t = .char '/' :: t' := by
            cases t with
            | nil => cases hslash
            | cons a t => exact ⟨t, by rw [Option.some.inj hslash]⟩
          rw [Text.upTo?_cons_of_ne (by decide)]
          show (nameAt? t').map _ = _
          rw [nameAt?_eq]
          cases Text.upTo? (.char '>') t' with
          | none => rfl
          | some split =>
              simp only [Option.bind_some, Option.map_some, anyHead?_slash, Option.map_map]
              rfl
        · rw [anyForm_of_not_slash before hslash, nameAt?_eq]
          cases hup : Text.upTo? (.char '>') t with
          | none => rfl
          | some split =>
              obtain ⟨r, rest⟩ := split
              obtain ⟨rfl, -⟩ := Text.upTo?_eq_some_iff.mp hup
              have hr : r.head? ≠ some (.char '/') := fun heq => by
                cases r with
                | nil => cases heq
                | cons a r => exact hslash heq
              simp only [Option.bind_some, Option.map_some, anyHead?_of_not_slash hr,
                Option.map_map]
              rfl
      · rw [anyForm_of_not_start hg before t, Text.upTo?]
        split
        · rfl
        · cases Text.upTo? (.char '>') t with
          | none => rfl
          | some split => simp [anyHead?_of_not_start hg]
  opens {r value} h := by
    cases r with
    | nil => cases h
    | cons g r =>
        by_cases hg : g = .char '<'
        · rw [hg, List.head?_cons]
        · rw [anyHead?_of_not_start hg] at h
          cases h
  stops {r} z hne := by
    obtain ⟨g, r, rfl⟩ := List.exists_cons_of_ne_nil hne
    rw [List.cons_append]
    by_cases hg : g = .char '<'
    · subst hg
      by_cases hslash : r.head? = some (.char '/')
      · cases r with
        | nil => cases hslash
        | cons a r =>
            obtain rfl := Option.some.inj hslash
            rw [List.cons_append, anyHead?_slash, anyHead?_slash, nameHead?_append]
      · have happend : (r ++ .char '<' :: z).head? ≠ some (.char '/') := fun heq => by
          cases r with
          | nil => exact absurd (Option.some.inj heq) (by decide)
          | cons a r => exact hslash heq
        rw [anyHead?_of_not_slash hslash, anyHead?_of_not_slash happend, nameHead?_append]
    · rw [anyHead?_of_not_start hg, anyHead?_of_not_start hg]
  comment z := rfl

/-! ## Beside an end -/

section IsTagForm

variable {α : Type} {form : Form α} {head? : Text → Option α} (h : IsTagForm form head?)

include h

theorem IsTagForm.isBlind : form.IsBlind := fun before before' t => by
  rw [h.form_eq, h.form_eq]

theorem IsTagForm.isReader : form.IsReader := by
  intro before t value rest hread
  rw [h.form_eq] at hread
  obtain ⟨⟨r, rest'⟩, hup, hread⟩ := Option.bind_eq_some_iff.mp hread
  obtain ⟨value', -, heq⟩ := Option.map_eq_some_iff.mp hread
  obtain ⟨rfl, rfl⟩ := Prod.mk.inj heq
  obtain ⟨rfl, -⟩ := Text.upTo?_eq_some_iff.mp hup
  exact ⟨r ++ [.char '>'], by simp, by simp⟩

/-- Up to an end a tag is read without what follows. -/
theorem IsTagForm.form_append {s : Text} (hs : Glyph.char '>' ∈ s) (u : Text) :
    form none (s ++ u) = (form none s).map fun (value, rest) => (value, rest ++ u) := by
  rw [h.form_eq, h.form_eq, Text.upTo?_append hs]
  cases Text.upTo? (.char '>') s with
  | none => rfl
  | some split =>
      simp only [Option.map_some, Option.bind_some, Option.map_map]
      rfl

theorem IsTagForm.findAll_append_of_end (t u : Text) :
    form.findAll ((t ++ [.char '>']) ++ u) = form.findAll (t ++ [.char '>']) ++
      (form.findAll u).map (Found.shift (t ++ [Glyph.char '>']).length) := by
  refine Form.findAll_append h.isBlind h.isReader fun s hne hs => h.form_append ?_ u
  rcases Text.suffix_append_iff.mp hs with hs | ⟨s', -, -, rfl⟩
  · rcases List.suffix_cons_iff.mp hs with rfl | hs
    · exact List.mem_cons_self
    · exact absurd (List.suffix_nil.mp hs) hne
  · simp

theorem IsTagForm.form_cons_of_not_start {g : Glyph} (hg : g ≠ .char '<') (before : Option Glyph)
    (t : Text) : form before (g :: t) = none := by
  rw [h.form_eq]
  cases hup : Text.upTo? (.char '>') (g :: t) with
  | none => rfl
  | some split =>
      obtain ⟨r, rest⟩ := split
      obtain ⟨heq, -⟩ := Text.upTo?_eq_some_iff.mp hup
      rw [Option.bind_some, Option.map_eq_none_iff, Option.eq_none_iff_forall_ne_some]
      intro value hvalue
      have hopens := h.opens hvalue
      cases r with
      | nil => cases hopens
      | cons a r => exact hg ((List.cons.inj heq).1.trans (Option.some.inj hopens))

/-- Where no tag begins, none is found, and the search goes on behind. -/
theorem IsTagForm.findAll_append_of_no_start {t : Text} (ht : Glyph.char '<' ∉ t) (u : Text) :
    form.findAll (t ++ u) = (form.findAll u).map (Found.shift t.length) := by
  have hnone : ∀ s, s ≠ [] → s <:+ t → ∀ v, form none (s ++ v) = none := by
    intro s hne hs v
    obtain ⟨g, s, rfl⟩ := List.exists_cons_of_ne_nil hne
    refine h.form_cons_of_not_start (fun heq => ht ?_) none (s ++ v)
    exact heq ▸ hs.subset List.mem_cons_self
  have habsent : form.IsAbsent t := fun s hne hs => by
    simpa using hnone s hne hs []
  rw [Form.findAll_append h.isBlind h.isReader fun s hne hs => by
    rw [hnone s hne hs, habsent s hne hs]
    rfl, Form.findAll, Form.findFrom_of_isAbsent h.isBlind habsent, List.nil_append]

/-! ## Beside a comment -/

/-- No tag begins at a comment without angle brackets, nor in it. -/
theorem IsTagForm.isAbsent_wrap {body : Text} (hbody : IsBare body) :
    form.IsAbsent (wrap body) := by
  intro v hne hv
  rw [h.form_eq]
  cases hup : Text.upTo? (.char '>') v with
  | none => rfl
  | some split =>
      obtain ⟨r, rest⟩ := split
      obtain ⟨rfl, -⟩ := Text.upTo?_eq_some_iff.mp hup
      rw [Option.bind_some, Option.map_eq_none_iff, Option.eq_none_iff_forall_ne_some]
      intro value hvalue
      have hopens := h.opens hvalue
      have hwrap : wrap body = .char '<' :: .char '!' :: .char '-' :: .char '-' ::
          (body ++ closer) := by simp [wrap, opener]
      rw [hwrap] at hv
      rcases List.suffix_cons_iff.mp hv with heq | hv
      · cases r with
        | nil => cases hopens
        | cons a r =>
            obtain ⟨ha, htail⟩ := List.cons.inj heq
            cases r with
            | nil => exact absurd (List.cons.inj htail).1 (by decide)
            | cons b r =>
                rw [ha, (List.cons.inj htail).1, h.comment] at hvalue
                cases hvalue
      · have hmem : Glyph.char '<' ∈ r ++ Glyph.char '>' :: rest := by
          cases r with
          | nil => cases hopens
          | cons a r => simp [Option.some.inj hopens]
        have := hv.subset hmem
        simp [closer, hbody.1] at this

/-- A tag that is open where a comment begins ends with the comment. -/
theorem IsTagForm.form_append_wrap {s : Text} (hne : s ≠ []) (hs : Glyph.char '>' ∉ s)
    {body : Text} (hbody : IsBare body) :
    form none (s ++ wrap body) = (head? s).map fun value => (value, []) := by
  have hsplit : s ++ wrap body = (s ++ .char '<' ::
      ([.char '!', .char '-', .char '-'] ++ (body ++ [.char '-', .char '-']))) ++
        .char '>' :: [] := by
    simp [wrap, opener, closer]
  have hnot : Glyph.char '>' ∉ s ++ .char '<' ::
      ([.char '!', .char '-', .char '-'] ++ (body ++ [Glyph.char '-', .char '-'])) := by
    simp [hs, hbody.2]
  rw [hsplit, h.form_eq, Text.upTo?_eq_some_iff.mpr ⟨rfl, hnot⟩, ← h.stops _ hne]
  rfl

/-- A text in which no tag begins, and with which every tag ends that is open before it. -/
structure IsLid (form : Form α) (head? : Text → Option α) (w : Text) : Prop where
  absent : form.IsAbsent w
  ends : ∀ {s : Text}, s ≠ [] → Glyph.char '>' ∉ s →
    form none (s ++ w) = (head? s).map fun value => (value, [])

theorem IsTagForm.isLid_wrap {body : Text} (hbody : IsBare body) :
    IsLid form head? (wrap body) :=
  ⟨h.isAbsent_wrap hbody, fun hne hs => h.form_append_wrap hne hs hbody⟩

theorem IsTagForm.isLid_end : IsLid form head? [.char '>'] where
  absent v hne hv := by
    rcases List.suffix_cons_iff.mp hv with rfl | hv
    · exact h.form_cons_of_not_start (by decide) none []
    · exact absurd (List.suffix_nil.mp hv) hne
  ends {s} hne hs := by
    rw [h.form_eq, Text.upTo?_eq_some_iff.mpr ⟨rfl, hs⟩]
    rfl

/-- Exchanging a lid moves nothing but its end. -/
theorem IsTagForm.findFrom_lid {w w' : Text} (hw : IsLid form head? w) (hw' : IsLid form head? w')
    {place : Nat → Nat} (s : Text) : ∀ {skip p : Nat} (before : Option Glyph), skip ≤ s.length →
      (∀ n ≤ p + s.length, place n = n) →
      place (p + (s ++ w).length) = p + (s ++ w').length →
      form.findFrom skip p before (s ++ w') =
        (form.findFrom skip p before (s ++ w)).map (Found.move place) := by
  induction s with
  | nil =>
      intro skip p before hskip _ _
      obtain rfl : skip = 0 := Nat.le_zero.mp hskip
      rw [List.nil_append, List.nil_append, Form.findFrom_of_isAbsent h.isBlind hw.absent,
        Form.findFrom_of_isAbsent h.isBlind hw'.absent]
      rfl
  | cons g s ih =>
      intro skip p before hskip hkeep hend
      have hlength : ∀ w : Text, p + (g :: s ++ w).length = p + 1 + (s ++ w).length := fun w => by
        simp only [List.cons_append, List.length_cons]
        omega
      have ih := fun {skip : Nat} (hskip : skip ≤ s.length) => ih (p := p + 1) (some g) hskip
        (fun n hn => hkeep n (by rw [List.length_cons]; omega))
        (by rwa [← hlength, ← hlength])
      cases skip with
      | succ skip => exact ih (Nat.le_of_succ_le_succ hskip)
      | zero =>
          have hnext := ih (Nat.zero_le _)
          rw [List.cons_append, List.cons_append, Form.findFrom, Form.findFrom,
            ← List.cons_append, ← List.cons_append, h.isBlind before none (g :: s ++ w),
            h.isBlind before none (g :: s ++ w')]
          by_cases hs : Glyph.char '>' ∈ g :: s
          · rw [h.form_append hs, h.form_append hs]
            cases hread : form none (g :: s) with
            | none => exact hnext
            | some read =>
                obtain ⟨value, rest⟩ := read
                obtain ⟨read, hne, heq⟩ := h.isReader _ _ _ _ hread
                have hsum : read.length + rest.length = s.length + 1 := by
                  rw [← List.length_append, ← heq, List.length_cons]
                have htaken : ∀ w : Text, Form.taken (s ++ w) (rest ++ w) = read.length :=
                  fun w => by
                    simp only [Form.taken, List.length_append]
                    omega
                have hread := hkeep (p + read.length) (by rw [List.length_cons]; omega)
                have hhere := hkeep p (by omega)
                simp only [Option.map_some, htaken]
                rw [ih (by omega), List.map_cons, Found.move, hread, hhere]
          · rw [hw.ends (by simp) hs, hw'.ends (by simp) hs]
            cases head? (g :: s) with
            | none => exact hnext
            | some value =>
                have hhere := hkeep p (by omega)
                have htaken : ∀ w : Text, Form.taken (s ++ w) [] = (g :: s ++ w).length :=
                  fun w => by simp [Form.taken]
                have hover : ∀ w : Text, form.findFrom ((g :: s ++ w).length - 1) (p + 1) (some g)
                    (s ++ w) = [] := fun w => Form.findFrom_of_length_le _ _ (by simp)
                simp only [Option.map_some, htaken, hover, List.map_cons, List.map_nil, Found.move,
                  hhere, hend]

theorem IsTagForm.findAll_lid {w w' : Text} (hw : IsLid form head? w) (hw' : IsLid form head? w')
    {place : Nat → Nat} {t : Text} (hkeep : ∀ n ≤ t.length, place n = n)
    (hend : place (t ++ w).length = (t ++ w').length) :
    form.findAll (t ++ w') = (form.findAll (t ++ w)).map (Found.move place) :=
  h.findFrom_lid hw hw' t none (Nat.zero_le _) (by simpa using hkeep) (by simpa using hend)

theorem IsTagForm.findAll_wrap {body body' : Text} (hbody : IsBare body) (hbody' : IsBare body')
    {place : Nat → Nat} {t : Text} (hkeep : ∀ n ≤ t.length, place n = n)
    (hend : place (t ++ wrap body).length = (t ++ wrap body').length) :
    form.findAll (t ++ wrap body') = (form.findAll (t ++ wrap body)).map (Found.move place) :=
  h.findAll_lid (h.isLid_wrap hbody) (h.isLid_wrap hbody') hkeep hend

end IsTagForm

/-! ## Tags of a name -/

theorem startsOf_eq (name t : Text) : startsOf name t =
    ((startForm.findAll t).filter fun found => Text.lower found.value = name).map (·.stop) := by
  rw [startsOf, starts, List.filter_map, List.map_map]
  rfl

theorem closingsOf_eq (name t : Text) : closingsOf name t =
    ((anyForm.findAll t).filter fun found =>
      (found.value.1, Text.lower found.value.2) = (true, name)).map (·.start) := by
  rw [closingsOf, all, List.filter_map, List.map_map]
  rfl

theorem startsOf_append (name t u : Text) : startsOf name ((t ++ [.char '>']) ++ u) =
    startsOf name (t ++ [.char '>']) ++
      (startsOf name u).map ((t ++ [Glyph.char '>']).length + ·) := by
  rw [startsOf_eq, startsOf_eq, startsOf_eq, isTagForm_startForm.findAll_append_of_end,
    List.filter_append, List.map_append, List.filter_map, List.map_map, List.map_map]
  rfl

theorem startsOf_bounds (name t : Text) :
    (∀ n ∈ startsOf name t, 0 < n ∧ n ≤ t.length) ∧ (startsOf name t).Pairwise (· < ·) := by
  obtain ⟨hbounds, hpairwise⟩ := Form.bounds_findFrom isReader_startForm (t := t) 0 0 none
  rw [startsOf_eq]
  constructor
  · intro n hn
    obtain ⟨found, hfound, rfl⟩ := List.mem_map.mp hn
    have := hbounds found (List.mem_filter.mp hfound).1
    omega
  · rw [List.pairwise_map]
    refine (hpairwise.imp_of_mem fun {found found'} _ hfound' h => ?_).filter _
    have := hbounds found' hfound'
    omega

theorem closingsOf_pairwise (name t : Text) : (closingsOf name t).Pairwise (· < ·) := by
  obtain ⟨hbounds, hpairwise⟩ := Form.bounds_findFrom isReader_anyForm (t := t) 0 0 none
  rw [closingsOf_eq, List.pairwise_map]
  refine (hpairwise.imp_of_mem fun {found found'} hfound _ h => ?_).filter _
  have := hbounds found hfound
  omega

theorem closingsOf_le {name t : Text} {n : Nat} (h : n ∈ closingsOf name t) : n ≤ t.length := by
  obtain ⟨u, v, rfl, rfl⟩ := closingsOf_split h
  rw [List.length_append]
  omega

/-- A text that is cut behind its first start tag of a name holds no other. -/
theorem startsOf_take {name t : Text} {n : Nat} (h : (startsOf name t).head? = some n) :
    startsOf name (t.take n) = [n] := by
  obtain ⟨u, v, rfl, rfl⟩ := startsOf_split (List.mem_of_head? h)
  obtain ⟨hbounds, hpairwise⟩ := startsOf_bounds name (u ++ [.char '>'])
  rw [List.take_left]
  rw [startsOf_append] at h
  cases hstarts : startsOf name (u ++ [.char '>']) with
  | nil =>
      rw [hstarts, List.nil_append, List.head?_map] at h
      obtain ⟨m, hm, heq⟩ := Option.map_eq_some_iff.mp h
      have := ((startsOf_bounds _ _).1 m (List.mem_of_head? hm)).1
      omega
  | cons m ms =>
      rw [hstarts] at h hbounds hpairwise
      obtain rfl := Option.some.inj h
      cases ms with
      | nil => rfl
      | cons m' ms =>
          have hless := List.rel_of_pairwise_cons hpairwise List.mem_cons_self
          have hbound := (hbounds m' (by simp)).2
          omega

theorem exists_end_of_mem {name u : Text} (h : u.length ∈ startsOf name u) :
    ∃ x, u = x ++ [Glyph.char '>'] := by
  obtain ⟨x, v, heq, hlength⟩ := startsOf_split h
  have hnil : v = [] := List.length_eq_zero_iff.mp (by
    have := congrArg List.length heq
    rw [List.length_append] at this
    omega)
  exact ⟨x, by rw [heq, hnil, List.append_nil]⟩

theorem exists_end {name u : Text} (h : startsOf name u = [u.length]) :
    ∃ x, u = x ++ [Glyph.char '>'] :=
  exists_end_of_mem (h ▸ List.mem_cons_self)

/-- Up to a start tag the start tags are found without what follows, and that one is the last. -/
theorem startsOf_cut {name u v : Text} (h : u.length ∈ startsOf name (u ++ v)) :
    ∃ earlier, startsOf name u = earlier ++ [u.length] ∧
      ∀ w, ∃ later, startsOf name (u ++ w) = startsOf name u ++ later := by
  obtain ⟨x, y, heq, hlength⟩ := startsOf_split h
  obtain ⟨rfl, rfl⟩ := List.append_inj heq hlength
  obtain ⟨hbounds, hpairwise⟩ := startsOf_bounds name (x ++ [.char '>'])
  have hmem : (x ++ [Glyph.char '>']).length ∈ startsOf name (x ++ [.char '>']) := by
    rw [startsOf_append, List.mem_append] at h
    refine h.resolve_right fun hm => ?_
    obtain ⟨n, hn, hsum⟩ := List.mem_map.mp hm
    have := ((startsOf_bounds _ _).1 n hn).1
    omega
  obtain ⟨earlier, later, hsplit⟩ := List.append_of_mem hmem
  refine ⟨earlier, ?_, fun w => ⟨_, startsOf_append name x w⟩⟩
  cases later with
  | nil => exact hsplit
  | cons m later =>
      rw [hsplit] at hbounds hpairwise
      have hless := List.rel_of_pairwise_cons (List.pairwise_append.mp hpairwise).2.1
        (List.mem_cons_self (a := m) (l := later))
      have hbound := (hbounds m (by simp)).2
      omega

theorem exists_closing_of_zero_mem {name u : Text} (h : 0 ∈ closingsOf name u) :
    ∃ v, u = .char '<' :: .char '/' :: v := by
  obtain ⟨x, v, rfl, hx⟩ := closingsOf_split h
  rw [List.length_eq_zero_iff.mp hx.symm]
  exact ⟨v, rfl⟩

/-- A closing tag divides those of its name: some stand before it, and the others are found as
well from it on. -/
theorem closingsOf_cut {name t : Text} {n : Nat} (h : n ∈ closingsOf name t) :
    ∃ earlier later, closingsOf name (t.drop n) = 0 :: later ∧
      closingsOf name t = earlier ++ (closingsOf name (t.drop n)).map (n + ·) ∧
      ∀ m ∈ earlier, m < n := by
  rw [closingsOf_eq] at h
  obtain ⟨found, hfound, rfl⟩ := List.mem_map.mp h
  obtain ⟨hfound, hvalue⟩ := List.mem_filter.mp hfound
  obtain ⟨before, first, behind, hfirst, hshift, heq⟩ :=
    Form.findAll_drop isTagForm_anyForm.isBlind hfound
  have hvalue' : decide ((first.value.1, Text.lower first.value.2) = (true, name)) = true := by
    rw [← hshift] at hvalue
    exact hvalue
  have hstart : first.start = 0 := by
    have := congrArg Found.start hshift
    rw [Found.start_shift] at this
    omega
  obtain ⟨later, hlater⟩ : ∃ later, closingsOf name (t.drop found.start) = 0 :: later := by
    rw [closingsOf_eq, hfirst, List.filter_cons, if_pos hvalue', List.map_cons, hstart]
    exact ⟨_, rfl⟩
  have hsplit : closingsOf name t = (before.filter fun found =>
      (found.value.1, Text.lower found.value.2) = (true, name)).map (·.start) ++
        (closingsOf name (t.drop found.start)).map (found.start + ·) := by
    rw [closingsOf_eq, closingsOf_eq, heq, List.filter_append, List.map_append, List.filter_map,
      List.map_map, List.map_map]
    rfl
  refine ⟨_, later, hlater, hsplit, fun m hm => ?_⟩
  have hpairwise := closingsOf_pairwise name t
  rw [hsplit, hlater] at hpairwise
  exact (List.pairwise_append.mp hpairwise).2.2 m hm _ List.mem_cons_self

/-- A text that is cut in front of its last closing tag of a name holds no other. -/
theorem closingsOf_drop {name t : Text} {n : Nat} (h : (closingsOf name t).getLast? = some n) :
    closingsOf name (t.drop n) = [0] := by
  obtain ⟨earlier, later, hlater, hsplit, -⟩ := closingsOf_cut (List.mem_of_getLast? h)
  have hpairwise := closingsOf_pairwise name (t.drop n)
  rw [hlater] at hsplit hpairwise ⊢
  rcases List.eq_nil_or_concat later with rfl | ⟨init, m, rfl⟩
  · rfl
  · have hless := List.rel_of_pairwise_cons hpairwise (by simp : m ∈ init.concat m)
    rw [hsplit, List.concat_eq_append, ← List.cons_append, List.map_append, ← List.append_assoc,
      List.map_singleton, List.getLast?_concat] at h
    have := Option.some.inj h
    omega

/-! ## Closing tags across seams -/

theorem closingsOf_append (name t u : Text) : closingsOf name ((t ++ [.char '>']) ++ u) =
    closingsOf name (t ++ [.char '>']) ++
      (closingsOf name u).map ((t ++ [Glyph.char '>']).length + ·) := by
  rw [closingsOf_eq, closingsOf_eq, closingsOf_eq, isTagForm_anyForm.findAll_append_of_end,
    List.filter_append, List.map_append, List.filter_map, List.map_map, List.map_map]
  rfl

/-- No closing tag begins in a comment. -/
theorem length_closingsOf_wrap_append (name : Text) {body : Text} (hbody : IsBare body) (u : Text) :
    (closingsOf name (wrap body ++ u)).length = (closingsOf name u).length := by
  have hwrap : wrap body = (opener ++ (body ++ [.char '-', .char '-'])) ++ [.char '>'] := by
    simp [wrap, closer]
  have hnone : closingsOf name (wrap body) = [] := by
    rw [closingsOf_eq, Form.findAll, Form.findFrom_of_isAbsent isTagForm_anyForm.isBlind
      (isTagForm_anyForm.isAbsent_wrap hbody)]
    rfl
  rw [hwrap] at hnone ⊢
  rw [closingsOf_append, hnone, List.nil_append, List.length_map]

/-- A comment ends a closing tag just as a mere `>` would. -/
theorem length_closingsOf_append_wrap (name t : Text) {body : Text} (hbody : IsBare body)
    (u : Text) : (closingsOf name (t ++ (wrap body ++ u))).length =
      (closingsOf name (t ++ [.char '>'])).length + (closingsOf name u).length := by
  have hform := isTagForm_anyForm
  have hmove : anyForm.findAll (t ++ [.char '>']) = (anyForm.findAll (t ++ wrap body)).map
      (Found.move fun n => if n ≤ t.length then n else t.length + 1) := by
    refine hform.findAll_lid (hform.isLid_wrap hbody) hform.isLid_end (fun n hn => if_pos hn) ?_
    rw [if_neg (by rw [List.length_append, length_wrap]; omega), List.length_append]
    rfl
  have hlength : (closingsOf name (t ++ [.char '>'])).length =
      (closingsOf name (t ++ wrap body)).length := by
    rw [closingsOf_eq, closingsOf_eq, hmove, List.filter_map, List.map_map, List.length_map,
      List.length_map]
    rfl
  have hwrap : t ++ (wrap body ++ u) =
      ((t ++ (opener ++ (body ++ [.char '-', .char '-']))) ++ [.char '>']) ++ u := by
    simp [wrap, closer]
  have hwrap' : (t ++ (opener ++ (body ++ [.char '-', .char '-']))) ++ [.char '>'] =
      t ++ wrap body := by
    simp [wrap, closer]
  rw [hwrap, closingsOf_append, hwrap', List.length_append, List.length_map, hlength]

end Tag

end Stencil
