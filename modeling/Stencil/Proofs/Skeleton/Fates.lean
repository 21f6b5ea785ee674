import Stencil.Proofs.Skeleton.Overwriting

/-!
# What becomes of a parameter marker

A parameter marker of a template that gets a value from the page meets one of three fates (`Fate`).
It takes the value, if the value attribute is the first thing in it that looks like one. It keeps its
own value, if it gives none or a key that only ends in the word comes first. It is a marker no
longer, if another attribute's value ends like the beginning of a value attribute. The fate is read
off the attributes as they are written (`fate`), and `settled_convertBody` says that a conversion
leaves just what the fate says.
-/

namespace Stencil

namespace Skeleton

open Marker

inductive Fate where
  | taken
  | kept
  | lost
deriving DecidableEq, Repr

/-- What a value does to a marker with these attributes, keys as they are written. -/
def fate : List (Text × Text) → Fate
  | [] => .kept
  | (key, value) :: rest =>
    if opensValue (key ++ [.char '=']) then if Text.lower key = valueKey then .taken else .kept
    else if opensValue value && !rest.isEmpty then .lost
    else fate rest

/-- The attributes that stand in a text, keys as they are written. -/
def spelled (t : Text) : List (Text × Text) := (attributeForm.findAll t).map (·.value)

/-- What a value does to a parameter marker. -/
def fateOf (body : Text) : Fate :=
  match firstWord? body with
  | some (_, rest) => fate (spelled rest)
  | none => .kept

theorem spelled_append_of_isBlank {gap : Text} (h : gap.isBlank = true) (t : Text) :
    spelled (gap ++ t) = spelled t := by
  induction gap with
  | nil => rfl
  | cons g gap ih =>
      rw [Text.isBlank, List.all_cons, Bool.and_eq_true] at h
      rw [List.cons_append, spelled, Form.findAll_cons isBlind_attributeForm
        (attributeForm_of_isBlank h.1 none _), List.map_map, ← ih h.2]
      rfl

theorem spelled_of_laid {as : List Attribute} {t : Text} (h : Laid as t) :
    spelled t = as.map fun a => (a.key, a.value) := by
  induction h with
  | @blanks gap hgap =>
      rw [← List.append_nil gap, spelled_append_of_isBlank hgap]
      rfl
  | @cons gap a as t hgap ha _ ih =>
      rw [spelled_append_of_isBlank hgap, spelled, Form.findAll_read isBlind_attributeForm
        a.text_ne_nil (attributeForm_text ha _), List.map_cons, List.map_map, List.map_cons, ← ih]
      rfl

/-! ## The attributes with another value -/

/-- The attributes once a value has been written, if they are attributes still. -/
def exchange (value : Text) : List Attribute → Option (List Attribute)
  | [] => some []
  | a :: as =>
    if opensValue (a.key ++ [.char '=']) then some ({ a with value } :: as)
    else if opensValue a.value && !as.isEmpty then none
    else (exchange value as).map (a :: ·)

/-- A text with a value written into it is the exchanged attributes, or shows a quote that stands
behind no sign where one is due. -/
structure Exchanged (value : Text) (as : List Attribute) (t : Text) : Prop where
  laid : ∀ as', exchange value as = some as' → Laid as' t
  broken : exchange value as = none → endsInSign value = false →
    ∃ u v, t = u ++ .char '"' :: v ∧ Even (u.count (.char '"')) ∧ endsInSign u = false

theorem even_count_text {gap u : Text} {a : Attribute} (hgap : gap.isBlank = true) (ha : a.Fits)
    (h : Even (u.count (.char '"'))) : Even ((gap ++ (a.text ++ u)).count (.char '"')) := by
  rw [text_eq_leadOf, List.count_append, List.count_cons_self, List.count_append,
    List.count_cons_self, List.count_eq_zero.mpr (no_quote_leadOf hgap ha),
    List.count_eq_zero.mpr ha.no_quote,
    show 0 + (0 + (u.count (Glyph.char '"') + 1) + 1) = u.count (Glyph.char '"') + 2 by omega]
  exact Nat.even_add.mpr ⟨fun _ => by decide, fun _ => h⟩

theorem endsInSign_text_append {gap u : Text} {a : Attribute} (h : endsInSign u = false) :
    endsInSign (gap ++ (a.text ++ u)) = false := by
  have hin : gap ++ (a.text ++ u) = (gap ++ (a.head ++ a.value)) ++ .char '"' :: u := by
    simp [Attribute.text]
  rw [hin, endsInSign_append_cons (by decide) (by decide), h]

theorem exchanged_replaceFirst {as : List Attribute} {t value : Text} (h : Laid as t)
    (hvalue : Glyph.char '"' ∉ value) : ∀ before : Option Glyph,
      (before.map Glyph.isWord).getD false = false → Exchanged value as
        (valueForm.replaceFirstFrom (fun head => head ++ value ++ [.char '"']) before t) := by
  induction h with
  | @blanks gap hgap =>
      intro before _
      have hsame : ∀ write, valueForm.replaceFirstFrom write before gap = gap := fun write => by
        have hpass := Form.replaceFirstFrom_append (t := []) (valueForm_of_isDull (fun g hg =>
          isDull_of_isBlank (List.all_eq_true.mp hgap g hg)) []) write before
        rwa [List.append_nil, Form.replaceFirstFrom, List.append_nil] at hpass
      rw [hsame]
      constructor
      · intro as' has'
        obtain rfl := Option.some.inj has'
        exact .blanks hgap
      · intro hnone
        cases hnone
  | @cons gap a as t hgap ha hlaid ih =>
      intro before hbefore
      have hquoteWord : ((some (Glyph.char '"')).map Glyph.isWord).getD false = false := by
        decide +kernel
      have hlead := no_quote_leadOf hgap ha
      rw [text_eq_leadOf]
      by_cases hkey : opensValue (a.key ++ [.char '=']) = true
      · -- the quotes are those of this attribute
        rw [replaceFirstFrom_opening ((opensValue_leadOf hgap ha).trans hkey) hlead hbefore
          ha.no_quote]
        constructor
        · intro as' has'
          rw [exchange, if_pos hkey] at has'
          obtain rfl := Option.some.inj has'
          have hfits : Attribute.Fits { a with value } := { ha with no_quote := hvalue }
          have hnext := Laid.cons hgap hfits hlaid
          rwa [text_eq_leadOf] at hnext
        · intro hnone
          rw [exchange, if_pos hkey] at hnone
          cases hnone
      · rw [replaceFirstFrom_piece hlead
          (Or.inl ((opensValue_leadOf hgap ha).trans (Bool.not_eq_true _ ▸ hkey)))]
        by_cases hopens : (opensValue a.value && !as.isEmpty) = true
        · -- the quotes are those before and behind the next key
          obtain ⟨hmisleads, hmore⟩ := Bool.and_eq_true_iff.mp hopens
          refine ⟨fun as' has' => ?_, fun _ hsign => ?_⟩
          · rw [exchange, if_neg hkey, if_pos hopens] at has'
            cases has'
          · cases hlaid with
            | blanks => cases hmore
            | @cons gap₁ b as t hgap₁ hb hlaid =>
                rw [text_eq_leadOf gap₁ b t, replaceFirstFrom_opening hmisleads ha.no_quote hquoteWord
                  (no_quote_leadOf hgap₁ hb)]
                refine ⟨gap ++ (a.text ++ value), b.value ++ .char '"' :: t, ?_, ?_, ?_⟩
                · simp [text_eq_leadOf]
                · refine even_count_text hgap ha ?_
                  rw [List.count_eq_zero.mpr hvalue]
                  exact Even.zero
                · exact endsInSign_text_append hsign
        · have hpass : opensValue a.value = false ∨ Glyph.char '"' ∉ t := by
            rw [Bool.and_eq_true, not_and_or, Bool.not_eq_true] at hopens
            refine hopens.imp_right fun hlast => ?_
            cases hlaid with
            | blanks hgap => exact Text.not_mem_of_isBlank hgap (by decide)
            | cons => exact absurd rfl hlast
          rw [replaceFirstFrom_piece ha.no_quote hpass, ← text_eq_leadOf]
          obtain ⟨hlaidNext, hbroken⟩ := ih (some (.char '"')) hquoteWord
          refine ⟨fun as' has' => ?_, fun hnone hsign => ?_⟩
          · rw [exchange, if_neg hkey, if_neg hopens] at has'
            obtain ⟨as'', has'', rfl⟩ := Option.map_eq_some_iff.mp has'
            exact .cons hgap ha (hlaidNext as'' has'')
          · rw [exchange, if_neg hkey, if_neg hopens, Option.map_eq_none_iff] at hnone
            obtain ⟨u, v, heq, heven, hends⟩ := hbroken hnone hsign
            exact ⟨gap ++ (a.text ++ u), v, by rw [heq]; simp, even_count_text hgap ha heven,
              endsInSign_text_append hends⟩

/-! ## What the attributes say then -/

/-- The attributes as they are looked up. -/
def lowered (as : List Attribute) : Attributes := as.map fun a => (Text.lower a.key, a.value)

theorem opensValue_of_lower {key : Text} (h : Text.lower key = valueKey) :
    opensValue (key ++ [.char '=']) = true :=
  opensValue_iff.mpr ⟨[], key ++ [.char '='], rfl,
    ⟨key, [], [], rfl, Text.map_asciiLower_eq (by decide +kernel) h, rfl, rfl⟩, rfl⟩

/-- What looks like a value attribute is not named like a name. -/
theorem lower_ne_nameKey {key : Text} (h : opensValue (key ++ [.char '=']) = true) :
    Text.lower key ≠ nameKey := by
  intro hname
  obtain ⟨x, s, heq, ⟨word, gap, gap', rfl, hword, -⟩, -⟩ := opensValue_iff.mp h
  obtain ⟨v, rest, rfl, hv, -⟩ : ∃ v rest, word = v :: rest ∧ v.asciiLower = .char 'v' ∧
      rest.map Glyph.asciiLower = valueKey.tail := by
    obtain ⟨v, rest, rfl, hv, hrest⟩ := List.map_eq_cons_iff.mp
      (hword.trans (show valueKey = .char 'v' :: valueKey.tail by decide))
    exact ⟨v, rest, rfl, hv, hrest⟩
  have hmem : v ∈ key ++ [.char '='] := by rw [heq]; simp
  rcases List.mem_append.mp hmem with hmem | hmem
  · have hlower := Text.map_asciiLower_eq (by decide +kernel) hname
    exact absurd (hlower ▸ hv ▸ List.mem_map_of_mem hmem : Glyph.char 'v' ∈ nameKey) (by decide)
  · rw [List.mem_singleton.mp hmem] at hv
    exact absurd hv (by decide)

section Fates

variable {as : List Attribute} (value : Text)

theorem exchange_of_taken (h : fate (as.map fun a => (a.key, a.value)) = .taken) :
    ∃ as', exchange value as = some as' ∧ (lowered as').lookup valueKey = some value ∧
      (lowered as').lookup nameKey = (lowered as).lookup nameKey := by
  induction as with
  | nil => cases h
  | cons a as ih =>
      rw [List.map_cons, fate] at h
      rw [exchange]
      split at h
      · next hkey =>
        split at h
        · next hvalue =>
          refine ⟨_, if_pos hkey, ?_, ?_⟩
          · rw [lowered, List.map_cons, hvalue, List.lookup_cons_self]
          · exact lookup_exchange (lower_ne_nameKey hkey).symm value a.value [] _
        · cases h
      · next hkey =>
        have hother : Text.lower a.key ≠ valueKey := fun hvalue => hkey (opensValue_of_lower hvalue)
        rw [if_neg hkey]
        split at h
        · cases h
        · next hopens =>
          rw [List.isEmpty_map] at hopens
          obtain ⟨as', has', hvalue, hname⟩ := ih h
          refine ⟨a :: as', by rw [if_neg hopens, has']; rfl, ?_, ?_⟩
          · rw [lowered, List.map_cons, List.lookup_cons, beq_eq_false_iff_ne.mpr hother.symm]
            exact hvalue
          · rw [lowered, lowered, List.map_cons, List.map_cons, List.lookup_cons, List.lookup_cons]
            rw [show as'.map _ = lowered as' from rfl, show as.map _ = lowered as from rfl, hname]

theorem exchange_of_kept (h : fate (as.map fun a => (a.key, a.value)) = .kept) :
    ∃ as', exchange value as = some as' ∧
      (lowered as').lookup valueKey = (lowered as).lookup valueKey ∧
      (lowered as').lookup nameKey = (lowered as).lookup nameKey := by
  induction as with
  | nil => exact ⟨[], rfl, rfl, rfl⟩
  | cons a as ih =>
      rw [List.map_cons, fate] at h
      rw [exchange]
      split at h
      · next hkey =>
        split at h
        · cases h
        · next hother =>
          exact ⟨_, if_pos hkey, lookup_exchange (Ne.symm hother) value a.value [] _,
            lookup_exchange (lower_ne_nameKey hkey).symm value a.value [] _⟩
      · next hkey =>
        rw [if_neg hkey]
        split at h
        · cases h
        · next hopens =>
          rw [List.isEmpty_map] at hopens
          obtain ⟨as', has', hvalue, hname⟩ := ih h
          refine ⟨a :: as', by rw [if_neg hopens, has']; rfl, ?_, ?_⟩
          · rw [lowered, lowered, List.map_cons, List.map_cons, List.lookup_cons, List.lookup_cons,
              show as'.map _ = lowered as' from rfl, show as.map _ = lowered as from rfl, hvalue]
          · rw [lowered, lowered, List.map_cons, List.map_cons, List.lookup_cons, List.lookup_cons,
              show as'.map _ = lowered as' from rfl, show as.map _ = lowered as from rfl, hname]

theorem exchange_of_lost (h : fate (as.map fun a => (a.key, a.value)) = .lost) :
    exchange value as = none := by
  induction as with
  | nil => cases h
  | cons a as ih =>
      rw [List.map_cons, fate] at h
      rw [exchange]
      split at h
      · split at h <;> cases h
      · next hkey =>
        rw [if_neg hkey]
        split at h
        · next hopens =>
          rw [List.isEmpty_map] at hopens
          rw [if_pos hopens]
        · next hopens =>
          rw [List.isEmpty_map] at hopens
          rw [if_neg hopens, ih h, Option.map_none]

end Fates

/-! ## The marker of the page -/

/-- The parameter that a comment sets as a marker of a page, and its value. -/
def settled (body : Text) : Option (Text × Text) :=
  if kind? body = some (.param .page) then some (nameOf body, valueOf body) else none

theorem nameOf_valueOf_param {body word rest : Text} {side : Side} {as : List Attribute}
    (hfirst : firstWord? body = some (word, rest)) (hkind : kind? body = some (.param side))
    (has : Laid as rest) :
    (lowered as).lookup nameKey = some (nameOf body) ∧
      ((lowered as).lookup valueKey).getD [] = valueOf body := by
  obtain ⟨attributes, hclass⟩ := kind?_eq_some_iff.mp hkind
  obtain ⟨word', rest', hfirst', hof⟩ := exists_firstWord?_of_kind? hkind
  rw [hfirst] at hfirst'
  obtain ⟨rfl, rfl⟩ := Prod.mk.inj (Option.some.inj hfirst')
  obtain ⟨rfl, hsome, -⟩ := (classify_param hfirst hof attributes).mp hclass
  have hlookup : ∀ key, (readAttributes rest).lookup key = (lowered as).lookup key := fun key => by
    rw [lookup_readAttributes, has.written_eq, lowered]
  rw [nameOf, valueOf, hclass]
  obtain ⟨name, hname⟩ := Option.isSome_iff_exists.mp hsome
  rw [← hlookup, ← hlookup]
  refine ⟨?_, rfl⟩
  show _ = some (((readAttributes rest).lookup nameKey).getD [])
  rw [hname, Option.getD_some]

theorem settled_of_laid {body rest : Text} {as : List Attribute}
    (hfirst : firstWord? body = some ((Kind.param .page).keyword, rest)) (has : Laid as rest)
    {name : Text} (hname : (lowered as).lookup nameKey = some name) :
    settled body = some (name, ((lowered as).lookup valueKey).getD []) := by
  have hsome : ((readAttributes rest).lookup nameKey).isSome = true := by
    rw [lookup_readAttributes, has.written_eq, show as.map _ = lowered as from rfl, hname]
    rfl
  have hclass := (classify_param hfirst (Kind.ofKeyword?_keyword _) _).mpr
    ⟨rfl, hsome, has.isBlank_cutAll⟩
  have hkind : kind? body = some (.param .page) := kind?_eq_some_iff.mpr ⟨_, hclass⟩
  obtain ⟨hname', hvalue'⟩ := nameOf_valueOf_param hfirst hkind has
  rw [settled, if_pos hkind, ← hvalue', Option.some.inj (hname.symm.trans hname')]

theorem settled_of_not_laid {body rest : Text}
    (hfirst : firstWord? body = some ((Kind.param .page).keyword, rest))
    (h : ∀ as, ¬ Laid as rest) : settled body = none := by
  rw [settled, if_neg]
  intro hkind
  obtain ⟨attributes, hclass⟩ := kind?_eq_some_iff.mp hkind
  obtain ⟨-, -, hblank⟩ := (classify_param hfirst (Kind.ofKeyword?_keyword _) attributes).mp hclass
  obtain ⟨as, has⟩ := exists_laid hblank
  exact h as has

/-- Behind the keyword a value is written as if the text began there. -/
theorem exists_withValue_rename {body word rest : Text}
    (hfirst : firstWord? body = some (word, rest)) (value : Text) :
    firstWord? (withValue (rename (Kind.param .page).keyword body) value) =
      some ((Kind.param .page).keyword,
        valueForm.replaceFirstFrom (fun head => head ++ value ++ [.char '"']) none rest) := by
  obtain ⟨gap, rfl, hgap, hword, hrest⟩ := firstWord?_eq_some_iff.mp hfirst
  have hdull : ∀ b ∈ gap ++ (Kind.param .page).keyword, IsDull b := by
    have hkeyword : ∀ b ∈ (Kind.param .page).keyword, IsDull b := by
      unfold IsDull
      decide +kernel
    exact fun b hb => (List.mem_append.mp hb).elim
      (fun hb => isDull_of_isBlank (List.all_eq_true.mp hgap b hb)) (hkeyword b)
  obtain ⟨hblind, hends⟩ : (∀ before, valueForm.replaceFirstFrom
      (fun head => head ++ value ++ [.char '"']) before rest = valueForm.replaceFirstFrom
        (fun head => head ++ value ++ [.char '"']) none rest) ∧ EndsWord
          (valueForm.replaceFirstFrom (fun head => head ++ value ++ [.char '"']) none rest) := by
    cases rest with
    | nil => exact ⟨fun _ => rfl, nofun⟩
    | cons g rest =>
        have hg := hrest g rfl
        refine ⟨fun before => replaceFirstFrom_of_isBlank hg _ before rest, fun b hb => ?_⟩
        rw [Form.replaceFirstFrom, valueForm_cons_of_not_v (isDull_of_isBlank hg)] at hb
        obtain rfl := Option.some.inj hb
        exact hg
  rw [rename_eq hgap hword hrest, withValue, Form.replaceFirst, ← List.append_assoc gap,
    Form.replaceFirstFrom_append (valueForm_of_isDull hdull _), hblind]
  exact firstWord?_eq_some_iff.mpr ⟨gap, by simp, hgap, Kind.isWord_keyword _, hends⟩

/-- A parameter marker that the page gives a value becomes what its fate says. -/
theorem settled_convertBody {params : List Param} {body : Text} {param : Param}
    (hkind : kind? body = some (.param .template))
    (hparam : param? params (nameOf body) = some param) (hquote : Glyph.char '"' ∉ param.value)
    (hsign : endsInSign param.value = false) :
    settled (convertBody params body) = match fateOf body with
      | .taken => some (nameOf body, param.value)
      | .kept => some (nameOf body, valueOf body)
      | .lost => none := by
  obtain ⟨attributes, hclass⟩ := kind?_eq_some_iff.mp hkind
  obtain ⟨word, rest, hfirst, hof⟩ := exists_firstWord?_of_kind? hkind
  obtain ⟨rfl, -, hblank⟩ := (classify_param hfirst hof attributes).mp hclass
  obtain ⟨as, has⟩ := exists_laid hblank
  obtain ⟨hname, hvalue⟩ := nameOf_valueOf_param hfirst hkind has
  obtain ⟨hlaid, hbroken⟩ := exchanged_replaceFirst has hquote none rfl
  have hfirst' := exists_withValue_rename hfirst param.value
  have hconvert : convertBody params body =
      withValue (rename (Kind.param .page).keyword body) param.value := by
    simp only [convertBody, hkind, hparam]
  have hfate : fateOf body = fate (as.map fun a => (a.key, a.value)) := by
    rw [fateOf, hfirst]
    exact congrArg fate (spelled_of_laid has)
  rw [hconvert, hfate]
  cases hcase : fate (as.map fun a => (a.key, a.value)) with
  | taken =>
      obtain ⟨as', has', hvalue', hname'⟩ := exchange_of_taken param.value hcase
      rw [settled_of_laid hfirst' (hlaid as' has') (hname'.trans hname), hvalue', Option.getD_some]
  | kept =>
      obtain ⟨as', has', hvalue', hname'⟩ := exchange_of_kept param.value hcase
      rw [settled_of_laid hfirst' (hlaid as' has') (hname'.trans hname), hvalue', hvalue]
  | lost =>
      obtain ⟨u, v, heq, heven, hends⟩ := hbroken (exchange_of_lost param.value hcase) hsign
      refine settled_of_not_laid hfirst' fun as' has' => ?_
      rw [endsInSign_of_laid has' heq heven] at hends
      cases hends

/-- A parameter marker that the page gives no value keeps the one it has. -/
theorem settled_convertBody_of_none {params : List Param} {body : Text}
    (hkind : kind? body = some (.param .template))
    (hparam : param? params (nameOf body) = none) :
    settled (convertBody params body) = some (nameOf body, valueOf body) := by
  obtain ⟨attributes, hclass⟩ := kind?_eq_some_iff.mp hkind
  have hconvert : convertBody params body = rename (Kind.param .page).keyword body := by
    simp only [convertBody, hkind, hparam]
  have hclass' : classify (rename (Kind.param .page).keyword body) =
      some (.param .page, attributes) := classify_rename hclass rfl (by simp)
  rw [hconvert, settled, if_pos (kind?_eq_some_iff.mpr ⟨_, hclass'⟩), nameOf, nameOf, valueOf, valueOf,
    hclass', hclass]
  rfl

end Skeleton

end Stencil
