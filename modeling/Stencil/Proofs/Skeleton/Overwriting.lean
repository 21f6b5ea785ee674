import Stencil.Proofs.Skeleton.Declarations
import Mathlib.Algebra.Group.Nat.Even

/-!
# What a value is written over

A page's value is written between the first two quotes that stand behind something like the
beginning of a value attribute (`opensValue`). Up to such a place nothing is exchanged
(`replaceFirstFrom_piece`), and there everything up to the next quote is
(`replaceFirstFrom_opening`). In a text of attributes the quotes are those around a value and, when
a value ends like such a beginning, those around the next key. That can be told afterwards: every
other quote of attributes stands behind an equals sign (`endsInSign_of_laid`).
-/

namespace Stencil

namespace Skeleton

open Marker

/-- A value attribute up to its opening quote. -/
def IsOpening (s : Text) : Prop :=
  ∃ word gap gap' : Text, s = word ++ (gap ++ .char '=' :: gap') ∧
    word.map Glyph.asciiLower = valueKey ∧ gap.isBlank = true ∧ gap'.isBlank = true

/-- Whether a text ends in an equals sign, blanks aside. -/
def endsInSign (t : Text) : Bool := (Text.dropBlanks t.reverse).head? == some (.char '=')

/-- Whether a quote behind a text would be taken for the opening one of a value attribute: the text
ends in a word like `value` and a sign, and the word does not go on to the left. -/
def opensValue (t : Text) : Bool :=
  let spoken := Text.dropBlanks (Text.dropBlanks t.reverse).tail
  endsInSign t && ((spoken.take 5).map Glyph.asciiLower == valueKey.reverse &&
    !((spoken.drop 5).head?.map Glyph.isWord).getD false)

theorem isBlank_reverse {t : Text} : Text.isBlank t.reverse = t.isBlank := List.all_reverse

/-- The word before a text, if there is any, does not go on in it. -/
def NoWordLast (t : Text) : Prop := (t.getLast?.map Glyph.isWord).getD false = false

theorem length_of_valueWord {word : Text} (h : word.map Glyph.asciiLower = valueKey) :
    word.length = 5 := by
  have := congrArg List.length h
  rwa [List.length_map, show valueKey.length = 5 from by decide] at this

theorem dropBlanks_reverse_sign {gap : Text} (h : gap.isBlank = true) (x : Text) :
    Text.dropBlanks (x ++ Glyph.char '=' :: gap).reverse = .char '=' :: x.reverse :=
  Text.dropBlanks_eq_cons_iff.mpr ⟨gap.reverse, by simp, by rw [isBlank_reverse, h], by decide⟩

theorem endsInSign_iff {t : Text} :
    endsInSign t = true ↔ ∃ x gap : Text, t = x ++ .char '=' :: gap ∧ gap.isBlank = true := by
  rw [endsInSign, beq_iff_eq]
  constructor
  · intro h
    obtain ⟨before, hbefore⟩ : ∃ before, Text.dropBlanks t.reverse = .char '=' :: before := by
      cases hdrop : Text.dropBlanks t.reverse with
      | nil => rw [hdrop] at h; cases h
      | cons g before =>
          rw [hdrop] at h
          obtain rfl := Option.some.inj h
          exact ⟨before, rfl⟩
    obtain ⟨gap, hrev, hgap, -⟩ := Text.dropBlanks_eq_cons_iff.mp hbefore
    refine ⟨before.reverse, gap.reverse, ?_, by rw [isBlank_reverse, hgap]⟩
    rw [← List.reverse_reverse t, hrev]
    simp
  · rintro ⟨x, gap, rfl, hgap⟩
    rw [dropBlanks_reverse_sign hgap]
    rfl

/-- Seen from the end, blanks go up to the last glyph of a word. -/
theorem dropBlanks_reverse_word {word gap : Text} (hne : word ≠ [])
    (hword : ∀ g ∈ word, g.isBlank = false) (hgap : gap.isBlank = true) (x : Text) :
    Text.dropBlanks (x ++ (word ++ gap)).reverse = word.reverse ++ x.reverse := by
  have hrev : (x ++ (word ++ gap)).reverse = gap.reverse ++ (word.reverse ++ x.reverse) := by simp
  rw [hrev]
  refine Text.dropWhile_append_of_stop (fun g hg => ?_) fun g hg => ?_
  · exact List.all_eq_true.mp hgap g (List.mem_reverse.mp hg)
  · rw [List.head?_append_of_ne_nil _ (by simpa using hne)] at hg
    exact hword g (List.mem_reverse.mp (List.mem_of_head? hg))

theorem dropBlanks_reverse_valueWord {word gap : Text} (h : word.map Glyph.asciiLower = valueKey)
    (hgap : gap.isBlank = true) (x : Text) :
    Text.dropBlanks (x ++ (word ++ gap)).reverse = word.reverse ++ x.reverse := by
  refine dropBlanks_reverse_word ?_ (fun g hg => ?_) hgap x
  · rintro rfl
    cases h
  · exact Glyph.isBlank_eq_false_of_isLetter (isLetter_of_valueWord h g hg)

theorem opensValue_iff {t : Text} :
    opensValue t = true ↔ ∃ x s, t = x ++ s ∧ IsOpening s ∧ NoWordLast x := by
  constructor
  · intro h
    rw [opensValue, Bool.and_eq_true, Bool.and_eq_true, beq_iff_eq, Bool.not_eq_true'] at h
    obtain ⟨hsign, hword, hlast⟩ := h
    obtain ⟨y, gap', rfl, hgap'⟩ := endsInSign_iff.mp hsign
    rw [dropBlanks_reverse_sign hgap', List.tail_cons] at hword hlast
    have hy : y = (Text.dropBlanks y.reverse).reverse ++
        (y.reverse.takeWhile Glyph.isBlank).reverse := by
      rw [← List.reverse_append, Text.dropBlanks, List.takeWhile_append_dropWhile,
        List.reverse_reverse]
    generalize Text.dropBlanks y.reverse = spoken at hword hlast hy
    refine ⟨(spoken.drop 5).reverse, (spoken.take 5).reverse ++
      ((y.reverse.takeWhile Glyph.isBlank).reverse ++ .char '=' :: gap'), ?_,
      ⟨_, _, _, rfl, ?_, ?_, hgap'⟩, ?_⟩
    · rw [← List.append_assoc, ← List.reverse_append, List.take_append_drop, ← List.append_assoc,
        ← hy]
    · rw [List.map_reverse, hword, List.reverse_reverse]
    · rw [isBlank_reverse]
      exact List.all_takeWhile
    · rw [NoWordLast, List.getLast?_reverse]
      exact hlast
  · rintro ⟨x, s, rfl, ⟨word, gap, gap', rfl, hword, hgap, hgap'⟩, hlast⟩
    have hlength : word.reverse.length = 5 := by rw [List.length_reverse, length_of_valueWord hword]
    have hin : x ++ (word ++ (gap ++ Glyph.char '=' :: gap')) =
        (x ++ (word ++ gap)) ++ .char '=' :: gap' := by simp
    rw [NoWordLast] at hlast
    rw [opensValue, hin, endsInSign_iff.mpr ⟨_, _, rfl, hgap'⟩, dropBlanks_reverse_sign hgap',
      List.tail_cons, dropBlanks_reverse_valueWord hword hgap, List.take_left' hlength,
      List.drop_left' hlength, List.map_reverse, hword, List.head?_reverse, hlast]
    simp

theorem endsInSign_append {s : Text} (h : endsInSign s = true) (t : Text) :
    endsInSign (t ++ s) = true := by
  obtain ⟨x, gap, rfl, hgap⟩ := endsInSign_iff.mp h
  exact endsInSign_iff.mpr ⟨t ++ x, gap, by simp, hgap⟩

/-- Behind a glyph that is neither blank nor a sign, it is the rest that ends in a sign. -/
theorem endsInSign_append_cons {g : Glyph} (hg : g.isBlank = false) (hsign : g ≠ .char '=')
    (t s : Text) : endsInSign (t ++ g :: s) = endsInSign s := by
  have hrev : (t ++ g :: s).reverse = s.reverse ++ g :: t.reverse := by simp
  rw [endsInSign, endsInSign, hrev, Text.dropBlanks_append_cons hg]
  cases Text.dropBlanks s.reverse with
  | nil => simp [hsign]
  | cons a rest => rfl

/-! ## From quote to quote -/

section Piece

variable {before : Option Glyph} {p rest : Text}

theorem no_quote_of_isOpening {s : Text} (h : IsOpening s) : Glyph.char '"' ∉ s := by
  obtain ⟨word, gap, gap', rfl, hword, hgap, hgap'⟩ := h
  intro hm
  simp only [List.mem_append, List.mem_cons] at hm
  rcases hm with hm | hm | hm | hm
  · exact absurd (isLetter_of_valueWord hword _ hm) (by decide)
  · exact Text.not_mem_of_isBlank hgap (by decide) hm
  · exact absurd hm (by decide)
  · exact Text.not_mem_of_isBlank hgap' (by decide) hm

/-- Before a quote a value is read just where it is opened and closed. -/
theorem valueForm_of_quote {s head after : Text} (hs : Glyph.char '"' ∉ s)
    (h : valueForm before (s ++ .char '"' :: rest) = some (head, after)) :
    (before.map Glyph.isWord).getD false = false ∧ IsOpening s ∧ Glyph.char '"' ∈ rest := by
  obtain ⟨hbefore, word, gap, gap', old, rfl, hword, hgap, hgap', heq, -⟩ :=
    valueForm_eq_some_iff.mp h
  have hopening : IsOpening (word ++ (gap ++ .char '=' :: gap')) :=
    ⟨word, gap, gap', rfl, isValueWord_iff.mp hword, hgap, hgap'⟩
  have hin : s ++ Glyph.char '"' :: rest =
      (word ++ (gap ++ .char '=' :: gap')) ++ .char '"' :: (old ++ .char '"' :: after) := by
    rw [heq]
    simp
  obtain ⟨hsame, hrest⟩ : s = word ++ (gap ++ .char '=' :: gap') ∧
      rest = old ++ .char '"' :: after := by
    have hleft := Text.upTo?_eq_some_iff.mpr ⟨hin, no_quote_of_isOpening hopening⟩
    rw [Text.upTo?_eq_some_iff.mpr ⟨rfl, hs⟩] at hleft
    exact Prod.mk.inj (Option.some.inj hleft)
  exact ⟨hbefore, hsame ▸ hopening, by rw [hrest]; simp⟩

/-- An opening goes back no further than its word. -/
theorem eq_nil_of_isOpening {s s' : Text} (h : IsOpening s) (h' : IsOpening (s' ++ s)) :
    s' = [] := by
  obtain ⟨word, gap, gap', rfl, hword, hgap, hgap'⟩ := h
  obtain ⟨word₁, gap₁, gap₁', heq, hword₁, hgap₁, hgap₁'⟩ := h'
  -- both end in the same sign, and the words before it end together
  have hsign : Text.dropBlanks ((s' ++ (word ++ gap)) ++ Glyph.char '=' :: gap').reverse =
      Text.dropBlanks (([] ++ (word₁ ++ gap₁)) ++ Glyph.char '=' :: gap₁').reverse := by
    rw [show (s' ++ (word ++ gap)) ++ Glyph.char '=' :: gap' =
      ([] ++ (word₁ ++ gap₁)) ++ Glyph.char '=' :: gap₁' by simpa using heq]
  rw [dropBlanks_reverse_sign hgap', dropBlanks_reverse_sign hgap₁'] at hsign
  have hwords := congrArg Text.dropBlanks (List.cons.inj hsign).2
  rw [dropBlanks_reverse_valueWord hword hgap, dropBlanks_reverse_valueWord hword₁ hgap₁] at hwords
  have hlength := congrArg List.length hwords
  simp only [List.length_append, List.length_reverse, length_of_valueWord hword,
    length_of_valueWord hword₁, List.length_nil] at hlength
  exact List.length_eq_zero_iff.mp (by omega)

theorem replaceFirstFrom_quote (write : Text → Text) (before : Option Glyph) (t : Text) :
    valueForm.replaceFirstFrom write before (.char '"' :: t) =
      .char '"' :: valueForm.replaceFirstFrom write (some (.char '"')) t := by
  rw [Form.replaceFirstFrom, valueForm_cons_of_not_v (by decide)]

/-- Up to a quote that opens no value nothing is exchanged. -/
theorem replaceFirstFrom_piece (hp : Glyph.char '"' ∉ p)
    (hpass : opensValue p = false ∨ Glyph.char '"' ∉ rest) (write : Text → Text) :
    valueForm.replaceFirstFrom write before (p ++ .char '"' :: rest) =
      p ++ .char '"' :: valueForm.replaceFirstFrom write (some (.char '"')) rest := by
  rw [Form.replaceFirstFrom_append_of_passed, replaceFirstFrom_quote]
  intro x s hxs hne
  rw [Option.eq_none_iff_forall_ne_some]
  rintro ⟨head, after⟩ hread
  obtain ⟨hlast, hopening, hmore⟩ := valueForm_of_quote
    (fun hm => hp (hxs ▸ List.mem_append_right x hm)) hread
  rcases hpass with hpass | hpass
  · refine absurd (opensValue_iff.mpr ⟨x, s, hxs, hopening, ?_⟩) (by rw [hpass]; nofun)
    rw [NoWordLast]
    cases hx : x.getLast? with
    | none => rfl
    | some g => rwa [hx, Option.some_or] at hlast
  · exact hpass hmore

/-- Behind a quote that opens a value everything up to the next quote is exchanged. -/
theorem replaceFirstFrom_opening {old after : Text} (hopens : opensValue p = true)
    (hp : Glyph.char '"' ∉ p) (hbefore : (before.map Glyph.isWord).getD false = false)
    (hold : Glyph.char '"' ∉ old) (value : Text) :
    valueForm.replaceFirstFrom (fun head => head ++ value ++ [.char '"']) before
        (p ++ .char '"' :: (old ++ .char '"' :: after)) =
      p ++ .char '"' :: (value ++ .char '"' :: after) := by
  obtain ⟨x, s, rfl, hopening, hlast⟩ := opensValue_iff.mp hopens
  have hword := hopening
  obtain ⟨word, gap, gap', rfl, hvalue, hgap, hgap'⟩ := hword
  have hread : valueForm (x.getLast?.or before)
      ((word ++ (gap ++ .char '=' :: gap')) ++ .char '"' :: (old ++ .char '"' :: after)) =
        some (word ++ (gap ++ .char '=' :: (gap' ++ [.char '"'])), after) := by
    refine valueForm_eq_some_iff.mpr ⟨?_, word, gap, gap', old, rfl, isValueWord_iff.mpr hvalue, hgap,
      hgap', by simp, hold⟩
    cases hx : x.getLast? with
    | none => exact hbefore
    | some g => rwa [NoWordLast, hx] at hlast
  rw [List.append_assoc, Form.replaceFirstFrom_append_of_passed]
  · obtain ⟨g, u, hu⟩ := List.exists_cons_of_ne_nil
      (show (word ++ (gap ++ Glyph.char '=' :: gap')) ++
        .char '"' :: (old ++ .char '"' :: after) ≠ [] by simp)
    rw [hu] at hread ⊢
    rw [Form.replaceFirstFrom, hread]
    simp
  · intro y s' hys hne
    rw [Option.eq_none_iff_forall_ne_some]
    rintro ⟨head, after'⟩ hread'
    rw [← List.append_assoc] at hread'
    have hnot : Glyph.char '"' ∉ s' ++ (word ++ (gap ++ Glyph.char '=' :: gap')) := fun hm => by
      rcases List.mem_append.mp hm with hm | hm
      · exact hp (List.mem_append_left _ (hys ▸ List.mem_append_right y hm))
      · exact hp (List.mem_append_right _ hm)
    exact hne (eq_nil_of_isOpening hopening (valueForm_of_quote hnot hread').2.1)

end Piece

/-! ## Attributes -/

section Attributes

variable {a : Attribute} {as : List Attribute} {gap t : Text}

/-- What stands before the value of an attribute, behind the one before it. -/
def leadOf (gap : Text) (a : Attribute) : Text :=
  gap ++ (a.key ++ (a.gap ++ .char '=' :: a.gap'))

theorem text_eq_leadOf (gap : Text) (a : Attribute) (t : Text) :
    gap ++ (a.text ++ t) = leadOf gap a ++ .char '"' :: (a.value ++ .char '"' :: t) := by
  simp [leadOf, Attribute.text, Attribute.head]

theorem isBlank_eq_false_of_mem_key (ha : a.Fits) {g : Glyph} (hg : g ∈ a.key) :
    g.isBlank = false := by
  obtain ⟨first, key, hkey, hopens, hmore⟩ := ha.opens
  rw [Bool.eq_false_iff]
  intro hblank
  rcases List.mem_cons.mp (hkey ▸ hg) with rfl | hg
  · rw [opensKey_of_isBlank hblank] at hopens
    cases hopens
  · have := hmore g hg
    rw [continuesKey_of_isBlank hblank] at this
    cases this

theorem key_ne_nil (ha : a.Fits) : a.key ≠ [] := by
  obtain ⟨first, key, hkey, -⟩ := ha.opens
  rw [hkey]
  simp

theorem no_quote_leadOf (hgap : gap.isBlank = true) (ha : a.Fits) :
    Glyph.char '"' ∉ leadOf gap a := by
  obtain ⟨first, key, hkey, hopens, hmore⟩ := ha.opens
  have hnotKey : Glyph.char '"' ∉ a.key := fun hm => by
    rcases List.mem_cons.mp (hkey ▸ hm) with rfl | hm
    · exact absurd hopens (by decide +kernel)
    · exact absurd (hmore _ hm) (by decide +kernel)
  simp only [leadOf, List.mem_append, List.mem_cons, not_or]
  exact ⟨Text.not_mem_of_isBlank hgap (by decide), hnotKey,
    Text.not_mem_of_isBlank ha.gap_isBlank (by decide), by decide,
    Text.not_mem_of_isBlank ha.gap'_isBlank (by decide)⟩

theorem endsInSign_leadOf (ha : a.Fits) (gap : Text) : endsInSign (leadOf gap a) = true :=
  endsInSign_iff.mpr ⟨gap ++ (a.key ++ a.gap), a.gap', by simp [leadOf], ha.gap'_isBlank⟩

/-- The blanks about a key make no difference. -/
theorem opensValue_leadOf (hgap : gap.isBlank = true) (ha : a.Fits) :
    opensValue (leadOf gap a) = opensValue (a.key ++ [.char '=']) := by
  have hlead : leadOf gap a = (gap ++ (a.key ++ a.gap)) ++ .char '=' :: a.gap' := by simp [leadOf]
  have hkey : a.key ++ [.char '='] = ([] ++ (a.key ++ [])) ++ .char '=' :: [] := by simp
  have hnotBlank := fun g => isBlank_eq_false_of_mem_key ha (g := g)
  rw [hlead, hkey, opensValue, opensValue, endsInSign_iff.mpr ⟨_, _, rfl, ha.gap'_isBlank⟩,
    endsInSign_iff.mpr ⟨_, _, rfl, rfl⟩, dropBlanks_reverse_sign ha.gap'_isBlank,
    dropBlanks_reverse_sign rfl, List.tail_cons, List.tail_cons,
    dropBlanks_reverse_word (key_ne_nil ha) hnotBlank ha.gap_isBlank,
    dropBlanks_reverse_word (key_ne_nil ha) hnotBlank rfl, List.reverse_nil, List.append_nil]
  by_cases hlength : 5 ≤ a.key.length
  · have hle : 5 ≤ a.key.reverse.length := by rwa [List.length_reverse]
    rw [List.take_append_of_le_length hle, List.drop_append_of_le_length hle]
    cases hrest : a.key.reverse.drop 5 with
    | cons g rest => rfl
    | nil =>
        rw [List.nil_append]
        cases hhead : gap.reverse.head? with
        | none => rfl
        | some g =>
            have hblank := List.all_eq_true.mp hgap g (List.mem_reverse.mp (List.mem_of_head? hhead))
            simp [Glyph.isWord_eq_false_of_isBlank hblank]
  · -- the word would have to reach into the blanks
    have hshort : (a.key.reverse.take 5).map Glyph.asciiLower ≠ valueKey.reverse := by
      intro h
      have := congrArg List.length h
      rw [List.length_map, List.length_take, List.length_reverse, List.length_reverse,
        show valueKey.length = 5 from by decide] at this
      omega
    have hlong : ((a.key.reverse ++ gap.reverse).take 5).map Glyph.asciiLower ≠ valueKey.reverse := by
      intro h
      cases hg : gap.reverse with
      | nil => exact hshort (by rwa [hg, List.append_nil] at h)
      | cons g rest =>
          have hmem : g ∈ (a.key.reverse ++ gap.reverse).take 5 := by
            rw [hg, List.take_append, List.length_reverse]
            refine List.mem_append_right _ ?_
            obtain ⟨n, hn⟩ : ∃ n, 5 - a.key.length = n + 1 := ⟨4 - a.key.length, by omega⟩
            rw [hn]
            exact List.mem_cons_self
          have hkey : ((a.key.reverse ++ gap.reverse).take 5).reverse.map Glyph.asciiLower =
              valueKey := by
            rw [List.map_reverse, h, List.reverse_reverse]
          have hletter : g.isLetter = true :=
            isLetter_of_valueWord hkey g (List.mem_reverse.mpr hmem)
          have hblank := List.all_eq_true.mp hgap g
            (List.mem_reverse.mp (hg ▸ List.mem_cons_self))
          rw [Glyph.isBlank_eq_false_of_isLetter hletter] at hblank
          cases hblank
    rw [beq_eq_false_iff_ne.mpr hshort, beq_eq_false_iff_ne.mpr hlong]
    rfl

/-- In a text of attributes every other quote stands behind a sign. -/
theorem endsInSign_of_laid (h : Laid as t) :
    ∀ {u v : Text}, t = u ++ .char '"' :: v → Even (u.count (.char '"')) → endsInSign u = true := by
  induction h with
  | blanks hgap =>
      intro u v heq _
      exact absurd (by rw [heq]; simp) (Text.not_mem_of_isBlank hgap (g := .char '"') (by decide))
  | @cons gap a as t hgap ha _ ih =>
      intro u v heq heven
      rw [text_eq_leadOf] at heq
      obtain ⟨x, rfl, hx⟩ := Text.append_eq_append_cons_right (no_quote_leadOf hgap ha) heq
      have hnone := List.count_eq_zero.mpr (no_quote_leadOf hgap ha)
      cases x with
      | nil =>
          rw [List.append_nil]
          exact endsInSign_leadOf ha gap
      | cons g x =>
          obtain ⟨rfl, hvalue⟩ := List.cons.inj hx
          obtain ⟨y, rfl, hy⟩ := Text.append_eq_append_cons_right ha.no_quote hvalue
          have hnoneValue := List.count_eq_zero.mpr ha.no_quote
          rw [List.count_append, List.count_cons_self, List.count_append, hnone, hnoneValue] at heven
          cases y with
          | nil => exact absurd heven (by decide)
          | cons g y =>
              obtain ⟨rfl, rfl⟩ := List.cons.inj hy
              rw [List.count_cons_self] at heven
              have hrest := ih rfl (by
                rw [show 0 + (0 + (y.count (Glyph.char '"') + 1) + 1) =
                  y.count (Glyph.char '"') + 2 by omega] at heven
                exact (Nat.even_add.mp heven).mpr (by decide))
              have hin : leadOf gap a ++ Glyph.char '"' :: (a.value ++ .char '"' :: y) =
                  (leadOf gap a ++ .char '"' :: (a.value ++ [.char '"'])) ++ y := by simp
              rw [hin]
              exact endsInSign_append hrest _

end Attributes

end Skeleton

end Stencil
