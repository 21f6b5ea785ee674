import Stencil.Proofs.Marker.Attributes
import Stencil.Proofs.Skeleton.Conversion
import Stencil.Proofs.Text.Lower

/-!
# Declared parameters

A template declares a parameter by its name, its type and its value (`Declares`). Of such a marker
the value is what a conversion exchanges, and nothing else is (`exists_frame`), so the converted
marker sets the same parameter to the value it was given, and converting with that value again
gives the same marker (`convertBody_declared`).
-/

namespace Stencil

/-- The letters of `value` have no cases beyond ASCII. -/
theorem Glyph.isCaseOf_iff {letter : Char} (hletter : letter ∉ ['i', 's', 'k']) {g : Glyph} :
    g.isCaseOf letter = true ↔ g.asciiLower = .char letter := by
  simp only [List.mem_cons, List.not_mem_nil, or_false, not_or] at hletter
  simp [isCaseOf, hletter]

theorem Glyph.isLetter_of_isCaseOf (letter : Char) (hletter : letter ∉ ['i', 's', 'k'])
    (hsmall : (Glyph.char letter).isLetter = true) {g : Glyph} (h : g.isCaseOf letter = true) :
    g.isLetter = true :=
  isLetter_of_asciiLower (by rwa [(isCaseOf_iff hletter).mp h])

namespace Skeleton

open Marker

/-- A word that the value of a parameter is given under. -/
theorem isValueWord_iff {word : Text} :
    List.Forall₂ (fun letter (g : Glyph) => g.isCaseOf letter = true)
      ['v', 'a', 'l', 'u', 'e'] word ↔ word.map Glyph.asciiLower = valueKey := by
  have hplain : ∀ letter ∈ ['v', 'a', 'l', 'u', 'e'], letter ∉ ['i', 's', 'k'] := by
    simp only [List.forall_mem_cons]
    exact ⟨by decide, by decide, by decide, by decide, by decide, nofun⟩
  have hgeneral : ∀ letters : List Char, (∀ letter ∈ letters, letter ∉ ['i', 's', 'k']) →
      ∀ word : Text, List.Forall₂ (fun letter (g : Glyph) => g.isCaseOf letter = true) letters word ↔
        word.map Glyph.asciiLower = letters.map Glyph.char := by
    intro letters
    induction letters with
    | nil =>
        intro _ word
        constructor
        · intro h
          cases h
          rfl
        · intro h
          rw [List.map_eq_nil_iff.mp h]
          exact .nil
    | cons letter letters ih =>
        intro hletters word
        cases word with
        | nil => exact ⟨nofun, nofun⟩
        | cons g word =>
            rw [List.forall₂_cons, List.map_cons, List.map_cons, List.cons.injEq,
              Glyph.isCaseOf_iff (hletters letter List.mem_cons_self),
              ih (fun letter h => hletters letter (List.mem_cons_of_mem _ h))]
  exact hgeneral _ hplain word

theorem isLetter_of_valueWord {word : Text} (h : word.map Glyph.asciiLower = valueKey) :
    ∀ g ∈ word, g.isLetter = true := fun g hg => by
  have hmem : g.asciiLower ∈ valueKey := h ▸ List.mem_map_of_mem hg
  have hletters : ∀ a ∈ valueKey, a.isLetter = true := by decide +kernel
  exact Glyph.isLetter_of_asciiLower (hletters _ hmem)

/-! ## The first value -/

/-- A glyph that no value begins with. -/
def IsDull (g : Glyph) : Prop := g.isCaseOf 'v' = false

theorem isDull_of_not_isLetter {g : Glyph} (h : g.isLetter = false) : IsDull g := by
  rw [IsDull]
  by_contra hcase
  rw [Glyph.isLetter_of_isCaseOf 'v' (by decide) (by decide)
    (Bool.not_eq_false _ ▸ hcase)] at h
  cases h

theorem isDull_of_isBlank {g : Glyph} (h : g.isBlank = true) : IsDull g := by
  refine isDull_of_not_isLetter ?_
  by_contra hletter
  rw [Glyph.isBlank_eq_false_of_isLetter (Bool.not_eq_false _ ▸ hletter)] at h
  cases h

/-- An attribute that holds no value of a parameter. -/
structure IsPassed (a : Attribute) : Prop where
  key_isDull : ∀ g ∈ a.key, IsDull g
  no_sign : Glyph.char '=' ∉ a.value

theorem valueForm_of_isDull {s : Text} (h : ∀ g ∈ s, IsDull g) (t : Text) :
    ∀ s', s' ≠ [] → s' <:+ s → ∀ before, valueForm before (s' ++ t) = none := by
  intro s' hne hs before
  obtain ⟨g, s', rfl⟩ := List.exists_cons_of_ne_nil hne
  exact valueForm_cons_of_not_v (h g (hs.subset List.mem_cons_self)) before _

theorem isDull_head {a : Attribute} (ha : a.Fits) (h : ∀ g ∈ a.key, IsDull g) :
    ∀ g ∈ a.head, IsDull g := by
  intro g hg
  simp only [Attribute.head, List.mem_append, List.mem_cons, List.not_mem_nil, or_false] at hg
  rcases hg with hg | hg | rfl | hg | rfl
  · exact h g hg
  · exact isDull_of_isBlank (List.all_eq_true.mp ha.gap_isBlank g hg)
  · exact isDull_of_not_isLetter (by decide)
  · exact isDull_of_isBlank (List.all_eq_true.mp ha.gap'_isBlank g hg)
  · exact isDull_of_not_isLetter (by decide)

/-- A quoted text without a sign is no value of a parameter, nor is any in it. -/
theorem valueForm_of_no_sign {s : Text} (h : Glyph.char '=' ∉ s) (before : Option Glyph)
    (t : Text) : valueForm before (s ++ .char '"' :: t) = none := by
  rw [Option.eq_none_iff_forall_ne_some]
  rintro ⟨head, after⟩ hsome
  obtain ⟨-, word, gap, gap', old, rfl, hword, hgap, -, heq, -⟩ := valueForm_eq_some_iff.mp hsome
  have hquote : Glyph.char '"' ∉ word ++ gap := fun hm => by
    rcases List.mem_append.mp hm with hm | hm
    · exact absurd (isLetter_of_valueWord (isValueWord_iff.mp hword) _ hm) (by decide)
    · exact Text.not_mem_of_isBlank hgap (by decide) hm
  simp only [List.append_assoc, List.cons_append] at heq
  rw [← List.append_assoc] at heq
  obtain ⟨x, rfl, hx⟩ := Text.append_eq_append_cons_right hquote heq.symm
  cases x with
  | nil => exact absurd (List.cons.inj hx).1 (by decide)
  | cons b x =>
      refine h (List.mem_append_right _ ?_)
      rw [← (List.cons.inj hx).1]
      exact List.mem_cons_self

theorem valueForm_of_isPassed {a : Attribute} (ha : a.Fits) (h : IsPassed a) (t : Text) :
    ∀ s, s ≠ [] → s <:+ a.text → ∀ before, valueForm before (s ++ t) = none := by
  intro s hne hs before
  rcases Text.suffix_append_iff.mp hs with hvalue | ⟨s', hne', hhead, rfl⟩
  · rcases Text.suffix_append_iff.mp hvalue with hquote | ⟨s', -, hinner, rfl⟩
    · exact valueForm_of_isDull (s := [.char '"']) (by simp [IsDull]; decide) t s hne hquote before
    · rw [List.append_assoc]
      exact valueForm_of_no_sign (fun hm => h.no_sign (hinner.subset hm)) before t
  · rw [List.append_assoc]
    exact valueForm_of_isDull (isDull_head ha h.key_isDull) _ s' hne' hhead before

/-- Among attributes the value that is exchanged is that of the first one with its key. -/
theorem exists_replaceFirst {as : List Attribute} {t : Text} (h : Laid as t) :
    ∀ {pre post : List Attribute} {a : Attribute}, as = pre ++ a :: post →
      (∀ b ∈ pre, IsPassed b) → a.key.map Glyph.asciiLower = valueKey →
      ∃ u w, t = u ++ .char '"' :: (a.value ++ .char '"' :: w) ∧ ∀ value : Text,
        (∀ before : Option Glyph, (before.map Glyph.isWord).getD false = false →
          valueForm.replaceFirstFrom (fun head => head ++ value ++ [.char '"']) before t =
            u ++ .char '"' :: (value ++ .char '"' :: w)) ∧
        (Glyph.char '"' ∉ value →
          Laid (pre ++ { a with value } :: post) (u ++ .char '"' :: (value ++ .char '"' :: w))) := by
  induction h with
  | blanks => intro pre post a heq; simp at heq
  | @cons gap b as t hgap hb hlaid ih =>
      intro pre post a heq hpre hkey
      have hpass : ∀ (s : Text) (write : Text → Text) (before : Option Glyph),
          valueForm.replaceFirstFrom write before (gap ++ s) =
            gap ++ valueForm.replaceFirstFrom write (gap.getLast?.or before) s := fun s write before =>
        Form.replaceFirstFrom_append (valueForm_of_isDull (fun g hg =>
          isDull_of_isBlank (List.all_eq_true.mp hgap g hg)) s) write before
      have hbefore : ∀ before : Option Glyph, (before.map Glyph.isWord).getD false = false →
          ((gap.getLast?.or before).map Glyph.isWord).getD false = false := by
        intro before hbefore
        cases hlast : gap.getLast? with
        | none => exact hbefore
        | some g =>
            exact Glyph.isWord_eq_false_of_isBlank
              (List.all_eq_true.mp hgap g (List.mem_of_getLast? hlast))
      cases pre with
      | nil =>
          obtain ⟨rfl, rfl⟩ := List.cons.inj heq
          refine ⟨gap ++ (b.key ++ (b.gap ++ .char '=' :: b.gap')), t, ?_, fun value => ⟨?_, ?_⟩⟩
          · simp [Attribute.text, Attribute.head]
          · intro before hword
            have hread : valueForm (gap.getLast?.or before) (b.text ++ t) = some (b.head, t) :=
              valueForm_eq_some_iff.mpr ⟨hbefore before hword, b.key, b.gap, b.gap', b.value, rfl,
                isValueWord_iff.mpr hkey, hb.gap_isBlank, hb.gap'_isBlank,
                by simp [Attribute.text], hb.no_quote⟩
            obtain ⟨g, rest, hcons⟩ := List.exists_cons_of_ne_nil
              (List.append_ne_nil_of_left_ne_nil b.text_ne_nil t)
            rw [hcons] at hread
            rw [hpass, hcons, Form.replaceFirstFrom, hread]
            simp [Attribute.head]
          · intro hquote
            have hfits : Attribute.Fits { b with value } := { hb with no_quote := hquote }
            have := Laid.cons hgap hfits hlaid
            simpa [Attribute.text, Attribute.head] using this
      | cons b' pre =>
          obtain ⟨rfl, rfl⟩ := List.cons.inj heq
          obtain ⟨u, w, rfl, hreplace⟩ := ih rfl (fun b hb => hpre b (List.mem_cons_of_mem _ hb)) hkey
          refine ⟨gap ++ (b.text ++ u), w, by simp, fun value => ⟨?_, ?_⟩⟩
          · intro before hword
            have hlast : b.text.getLast? = some (.char '"') := by
              simp [Attribute.text]
            rw [hpass, Form.replaceFirstFrom_append (valueForm_of_isPassed hb
              (hpre b List.mem_cons_self) _), hlast, Option.some_or,
              (hreplace value).1 _ (by decide +kernel)]
            simp
          · intro hquote
            have := Laid.cons hgap hb ((hreplace value).2 hquote)
            simpa using this

theorem replaceFirstFrom_of_isBlank {g : Glyph} (hg : g.isBlank = true) (write : Text → Text)
    (before : Option Glyph) (t : Text) : valueForm.replaceFirstFrom write before (g :: t) =
      valueForm.replaceFirstFrom write none (g :: t) := by
  simp only [Form.replaceFirstFrom, valueForm_cons_of_not_v (isDull_of_isBlank hg)]

/-! ## The value of a declaration -/

theorem lookup_exchange {key key' : Text} (h : key ≠ key') (value old : Text)
    (before behind : Attributes) : (before ++ (key', value) :: behind).lookup key =
      (before ++ (key', old) :: behind).lookup key := by
  simp only [List.lookup_append, List.lookup_cons, beq_eq_false_iff_ne.mpr h]

theorem lookup_here {key value : Text} {before behind : Attributes}
    (h : key ∉ before.map Prod.fst) : (before ++ (key, value) :: behind).lookup key = some value := by
  have hnone : before.lookup key = none := List.lookup_eq_none_iff.mpr fun entry hentry => by
    rw [bne_iff_ne]
    rintro rfl
    exact h (List.mem_map_of_mem hentry)
  rw [List.lookup_append, hnone, Option.none_or, List.lookup_cons_self]

theorem isDull_of_lower {key word : Text} (h : Text.lower key = word)
    (hplain : ∀ g ∈ word, g.isPlainSmall = true) (hword : Glyph.char 'v' ∉ word) :
    ∀ g ∈ key, IsDull g := by
  intro g hg
  have hmap := Text.map_asciiLower_eq hplain h
  rw [IsDull, Bool.eq_false_iff, Ne, Glyph.isCaseOf_iff (by decide)]
  intro heq
  exact hword (hmap ▸ heq ▸ List.mem_map_of_mem hg)

/-- The attribute of a declaration that holds its value, and those before it. -/
theorem exists_value {body word rest : Text} (hfirst : firstWord? body = some (word, rest))
    (hdecl : Declares body) {as : List Attribute} (has : Laid as rest) :
    ∃ pre a post, as = pre ++ a :: post ∧ Text.lower a.key = valueKey ∧
      ∀ b ∈ pre, IsPassed b ∧ Text.lower b.key ≠ valueKey := by
  have hwritten : writtenIn body = as.map fun a => (Text.lower a.key, a.value) := by
    rw [writtenIn, hfirst, ← has.written_eq]
  obtain ⟨hknown, hgiven, hsign⟩ := hdecl
  rw [hwritten] at hknown hgiven hsign
  obtain ⟨a, ha⟩ : ∃ a, (as.find? fun a => Text.lower a.key = valueKey) = some a := by
    have hvalue := hgiven valueKey (by simp)
    rw [List.map_map] at hvalue
    obtain ⟨a, ha, hkey⟩ := List.mem_map.mp hvalue
    exact Option.isSome_iff_exists.mp (List.find?_isSome.mpr ⟨a, ha, decide_eq_true hkey⟩)
  obtain ⟨hkey, pre, post, rfl, hpre⟩ := List.find?_eq_some_iff_append.mp ha
  refine ⟨pre, a, post, rfl, of_decide_eq_true hkey, fun b hb => ?_⟩
  have hother : Text.lower b.key ≠ valueKey := by simpa using hpre b hb
  have hentry : (Text.lower b.key, b.value) ∈
      (pre ++ a :: post).map fun a => (Text.lower a.key, a.value) :=
    List.mem_map.mpr ⟨b, List.mem_append_left _ hb, rfl⟩
  refine ⟨⟨?_, hsign _ hentry hother⟩, hother⟩
  have hmem := hknown _ hentry
  simp only [List.mem_cons, List.not_mem_nil, or_false] at hmem
  rcases hmem with hname | htype | hvalue
  · exact isDull_of_lower hname (by decide +kernel) (by decide)
  · exact isDull_of_lower htype (by decide +kernel) (by decide)
  · exact absurd hvalue hother

/-- Around its value a declaration stays as it is, under the keyword of pages. -/
theorem exists_frame {body : Text} (hkind : kind? body = some (.param .template))
    (hdecl : Declares body) : ∃ u old w : Text,
      rename (Kind.param .page).keyword body = u ++ .char '"' :: (old ++ .char '"' :: w) ∧
      Glyph.char '"' ∉ old ∧ ∀ value : Text, Glyph.char '"' ∉ value →
        withValue (rename (Kind.param .page).keyword body) value =
          u ++ .char '"' :: (value ++ .char '"' :: w) ∧
        ∃ attributes, classify (u ++ .char '"' :: (value ++ .char '"' :: w)) =
            some (.param .page, attributes) ∧
          attributes.lookup nameKey = some (nameOf body) ∧
          attributes.lookup valueKey = some value := by
  obtain ⟨attributes, hclass⟩ := kind?_eq_some_iff.mp hkind
  obtain ⟨word, rest, hfirst, hof⟩ := exists_firstWord?_of_kind? hkind
  obtain ⟨rfl, hsome, hblank⟩ := (classify_param hfirst hof attributes).mp hclass
  obtain ⟨as, has⟩ := exists_laid hblank
  obtain ⟨pre, a, post, rfl, hkey, hpre⟩ := exists_value hfirst hdecl has
  obtain ⟨u, w, hsplit, hreplace⟩ := exists_replaceFirst has rfl (fun b hb => (hpre b hb).1)
    (Text.map_asciiLower_eq (by decide +kernel) hkey)
  have hname : (written rest).lookup nameKey = some (nameOf body) := by
    obtain ⟨name, hlookup⟩ := Option.isSome_iff_exists.mp hsome
    rw [nameOf, hclass, ← lookup_readAttributes]
    show _ = some (((readAttributes rest).lookup nameKey).getD [])
    rw [hlookup, Option.getD_some]
  obtain ⟨gap, rfl, hgap, hword, hrest⟩ := firstWord?_eq_some_iff.mp hfirst
  -- the word is followed by a blank, which no value begins with
  obtain ⟨g, u, rfl, hg⟩ : ∃ g u', u = g :: u' ∧ g.isBlank = true := by
    cases u with
    | nil => exact absurd (hrest _ (by rw [hsplit]; rfl)) (by decide)
    | cons g u => exact ⟨g, u, rfl, hrest g (by rw [hsplit]; rfl)⟩
  rw [rename_eq hgap hword hrest]
  refine ⟨gap ++ ((Kind.param .page).keyword ++ g :: u), a.value, w, by rw [hsplit]; simp,
    (has.fits a (by simp)).no_quote, fun value hquote => ⟨?_, ?_⟩⟩
  · have hkeyword : ∀ b ∈ (Kind.param .page).keyword, IsDull b := by
      unfold IsDull
      decide +kernel
    have hdull : ∀ b ∈ gap ++ (Kind.param .page).keyword, IsDull b := fun b hb =>
      (List.mem_append.mp hb).elim
        (fun hb => isDull_of_isBlank (List.all_eq_true.mp hgap b hb)) (hkeyword b)
    rw [withValue, Form.replaceFirst, ← List.append_assoc gap,
      Form.replaceFirstFrom_append (valueForm_of_isDull hdull _), hsplit, List.cons_append,
      replaceFirstFrom_of_isBlank hg, ← List.cons_append, ← hsplit, (hreplace value).1 none rfl]
    simp
  · have hlaid := (hreplace value).2 hquote
    have hfirst' : firstWord? (gap ++ ((Kind.param .page).keyword ++
        ((g :: u) ++ .char '"' :: (value ++ .char '"' :: w)))) =
          some ((Kind.param .page).keyword, (g :: u) ++ .char '"' :: (value ++ .char '"' :: w)) :=
      firstWord?_eq_some_iff.mpr ⟨gap, rfl, hgap, Kind.isWord_keyword _, fun b hb => by
        obtain rfl : g = b := Option.some.inj hb
        exact hg⟩
    have hwritten := hlaid.written_eq
    rw [has.written_eq, List.map_append, List.map_cons] at hname
    rw [List.map_append, List.map_cons] at hwritten
    dsimp only at hwritten
    have hvalue : (written ((g :: u) ++ .char '"' :: (value ++ .char '"' :: w))).lookup valueKey =
        some value := by
      rw [hwritten, hkey]
      refine lookup_here fun hmem => ?_
      rw [List.map_map] at hmem
      obtain ⟨b, hb, heq⟩ := List.mem_map.mp hmem
      exact (hpre b hb).2 heq
    have hname' : (written ((g :: u) ++ .char '"' :: (value ++ .char '"' :: w))).lookup nameKey =
        some (nameOf (gap ++ (word ++ rest))) := by
      rw [← hname, hwritten, hkey]
      exact lookup_exchange (by decide) _ _ _ _
    rw [← lookup_readAttributes] at hname' hvalue
    refine ⟨readAttributes ((g :: u) ++ .char '"' :: (value ++ .char '"' :: w)), ?_, hname', hvalue⟩
    have hclass' := (classify_param hfirst' (Kind.ofKeyword?_keyword _) _).mpr
      ⟨rfl, by rw [hname']; rfl, hlaid.isBlank_cutAll⟩
    simpa using hclass'

/-- The parameters of a page that come from a text hold no quotes. -/
def AreUnquoted (params : List Param) : Prop := ∀ param ∈ params, Glyph.char '"' ∉ param.value

/-- A declaration becomes a parameter of the page under its name, with the value it is given; and
whoever gives that parameter the value it has come to carry converts the declaration to the same
marker. -/
theorem convertBody_declared {params : List Param} (hparams : AreUnquoted params) {body : Text}
    (hkind : kind? body = some (.param .template)) (hdecl : Declares body) :
    kind? (convertBody params body) = some (.param .page) ∧
      nameOf (convertBody params body) = nameOf body ∧
      (∀ param, param? params (nameOf body) = some param →
        valueOf (convertBody params body) = param.value) ∧
      ∀ params', (param? params' (nameOf body)).map (·.value) =
        some (valueOf (convertBody params body)) →
          convertBody params' body = convertBody params body := by
  obtain ⟨u, old, w, hrename, hold, hframe⟩ := exists_frame hkind hdecl
  have hconvert : ∀ {params param}, param? params (nameOf body) = some param →
      convertBody params body = withValue (rename (Kind.param .page).keyword body) param.value := by
    intro params param hparam
    simp only [convertBody, hkind, hparam]
  obtain ⟨value, hquote, hvalue, hgiven⟩ : ∃ value, Glyph.char '"' ∉ value ∧
      convertBody params body = u ++ .char '"' :: (value ++ .char '"' :: w) ∧
      ∀ param, param? params (nameOf body) = some param → value = param.value := by
    cases hparam : param? params (nameOf body) with
    | none =>
        refine ⟨old, hold, ?_, fun _ hsome => absurd hsome (by simp)⟩
        simp only [convertBody, hkind, hparam]
        exact hrename
    | some param =>
        have hquote := hparams param (List.mem_filter.mp (List.mem_of_getLast? hparam)).1
        refine ⟨param.value, hquote, ?_, fun param' hparam' => by rw [Option.some.inj hparam']⟩
        rw [hconvert hparam]
        exact (hframe _ hquote).1
  obtain ⟨hwith, attributes, hclass, hname, hvalueKey⟩ := hframe value hquote
  have hcarried : valueOf (u ++ .char '"' :: (value ++ .char '"' :: w)) = value := by
    rw [valueOf, hclass]
    show (attributes.lookup valueKey).getD [] = _
    rw [hvalueKey, Option.getD_some]
  rw [hvalue, hcarried]
  refine ⟨kind?_eq_some_iff.mpr ⟨attributes, hclass⟩, ?_, hgiven, fun params' h => ?_⟩
  · rw [nameOf, hclass]
    show (attributes.lookup nameKey).getD [] = _
    rw [hname, Option.getD_some]
  · obtain ⟨param, hparam, rfl⟩ := Option.map_eq_some_iff.mp h
    rw [hconvert hparam]
    exact hwith

end Skeleton

end Stencil
