import Stencil.Proofs.Marker.Kinds
import Stencil.Proofs.Text.Matches
import Mathlib.Tactic.IntervalCases

/-!
# Attributes

What follows the keyword of a parameter is attributes between blanks (`exists_laid`), and whatever
is laid out in this way is read as it was written (`Laid.written_eq`). So a marker with another
value is the same marker but for the value, as long as that holds no quote.
-/

namespace Stencil

theorem Glyph.isWord_eq_false_of_isBlank {g : Glyph} (h : g.isBlank = true) : g.isWord = false := by
  rw [isWord]
  simp only [isBlank, Bool.or_eq_true, Bool.and_eq_true, decide_eq_true_eq, beq_iff_eq,
    or_assoc] at h
  generalize g.code = n at h
  rcases h with ⟨h, h'⟩ | ⟨h, h'⟩ | rfl | rfl | rfl | ⟨h, h'⟩ | rfl | rfl | rfl | rfl | rfl
  · interval_cases n <;> decide +kernel
  · interval_cases n <;> decide +kernel
  · decide +kernel
  · decide +kernel
  · decide +kernel
  · interval_cases n <;> decide +kernel
  all_goals decide +kernel

namespace Marker

theorem continuesKey_of_isBlank {g : Glyph} (h : g.isBlank = true) : continuesKey g = false := by
  have hne : ∀ a : Glyph, a.isBlank = false → g ≠ a := by
    rintro a ha rfl
    rw [h] at ha
    cases ha
  rw [continuesKey, Glyph.isWord_eq_false_of_isBlank h]
  simp [hne (.char '.') (by decide), hne (.char ':') (by decide), hne (.char '-') (by decide)]

theorem opensKey_of_isBlank {g : Glyph} (h : g.isBlank = true) : opensKey g = false := by
  have hne : g ≠ .char '_' := by
    rintro rfl
    exact absurd h (by decide)
  have hletter : g.isLetter = false := by
    by_contra hletter
    rw [Glyph.isBlank_eq_false_of_isLetter (Bool.not_eq_false _ ▸ hletter)] at h
    cases h
  simp [opensKey, hne, hletter]

/-- An attribute with the blanks around its sign. -/
structure Attribute where
  key : Text
  gap : Text
  gap' : Text
  value : Text

namespace Attribute

/-- The attribute up to its opening quote. -/
def head (a : Attribute) : Text := a.key ++ (a.gap ++ .char '=' :: (a.gap' ++ [.char '"']))

def text (a : Attribute) : Text := a.head ++ (a.value ++ [.char '"'])

structure Fits (a : Attribute) : Prop where
  opens : ∃ g key, a.key = g :: key ∧ opensKey g = true ∧ ∀ b ∈ key, continuesKey b = true
  gap_isBlank : a.gap.isBlank = true
  gap'_isBlank : a.gap'.isBlank = true
  no_quote : Glyph.char '"' ∉ a.value

theorem text_ne_nil (a : Attribute) : a.text ≠ [] := by simp [text]

end Attribute

theorem attributeForm_eq_some_iff {before : Option Glyph} {t key value rest : Text} :
    attributeForm before t = some ((key, value), rest) ↔
      ∃ a : Attribute, a.Fits ∧ a.key = key ∧ a.value = value ∧ t = a.text ++ rest := by
  constructor
  · intro h
    unfold attributeForm at h
    split at h
    · cases h
    · next g t =>
      split at h
      · next hopens =>
        dsimp only at h
        split at h
        · next afterSign hsign =>
          obtain ⟨⟨value', rest'⟩, hquoted, heq⟩ := Option.map_eq_some_iff.mp h
          simp only [Prod.mk.injEq] at heq
          obtain ⟨⟨rfl, rfl⟩, rfl⟩ := heq
          obtain ⟨gap, hgap, hgapBlank, -⟩ := Text.dropBlanks_eq_cons_iff.mp hsign
          unfold quotedValue? at hquoted
          split at hquoted
          · next quoted hquote =>
            obtain ⟨gap', rfl, hgap', -⟩ := Text.dropBlanks_eq_cons_iff.mp hquote
            obtain ⟨rfl, hnot⟩ := Text.upTo?_eq_some_iff.mp hquoted
            refine ⟨⟨g :: t.takeWhile continuesKey, gap, gap', value'⟩, ⟨⟨g, _, rfl, hopens,
              List.all_eq_true.mp List.all_takeWhile⟩, hgapBlank, hgap', hnot⟩, rfl, rfl, ?_⟩
            conv_lhs => rw [← List.takeWhile_append_dropWhile (p := continuesKey) (l := t), hgap]
            simp [Attribute.text, Attribute.head]
          · cases hquoted
        · cases h
      · cases h
  · rintro ⟨⟨key, gap, gap', value⟩, ⟨⟨g, more, rfl, hopens, hmore⟩, hgap, hgap', hnot⟩, rfl, rfl,
      rfl⟩
    dsimp only at hgap hgap' hnot
    have hstop : ∀ b, (gap ++ Glyph.char '=' :: (gap' ++ .char '"' ::
        (value ++ .char '"' :: rest))).head? = some b → continuesKey b = false := by
      intro b hb
      cases gap with
      | nil =>
          obtain rfl : Glyph.char '=' = b := Option.some.inj hb
          decide +kernel
      | cons a gap =>
          obtain rfl : a = b := Option.some.inj hb
          exact continuesKey_of_isBlank (List.all_eq_true.mp hgap a List.mem_cons_self)
    have hin : Attribute.text ⟨g :: more, gap, gap', value⟩ ++ rest = g :: (more ++
        (gap ++ .char '=' :: (gap' ++ .char '"' :: (value ++ .char '"' :: rest)))) := by
      simp [Attribute.text, Attribute.head]
    have hquoted : Text.dropBlanks (gap' ++ .char '"' :: (value ++ .char '"' :: rest)) =
        .char '"' :: (value ++ .char '"' :: rest) :=
      Text.dropBlanks_eq_cons_iff.mpr ⟨gap', rfl, hgap', by decide⟩
    rw [hin]
    unfold attributeForm
    dsimp only
    rw [if_pos hopens, Text.takeWhile_append_of_stop hmore hstop,
      Text.dropWhile_append_of_stop hmore hstop,
      Text.dropBlanks_eq_cons_iff.mpr ⟨gap, rfl, hgap, by decide⟩]
    simp only [hquoted, quotedValue?, Text.upTo?_eq_some_iff.mpr ⟨rfl, hnot⟩, Option.map_some]

theorem isBlind_attributeForm : attributeForm.IsBlind := fun _ _ _ => rfl

theorem attributeForm_of_isBlank {g : Glyph} (h : g.isBlank = true) (before : Option Glyph)
    (t : Text) : attributeForm before (g :: t) = none := by
  unfold attributeForm
  dsimp only
  rw [opensKey_of_isBlank h]
  rfl

/-! ## Attributes between blanks -/

/-- The attributes that stand in a text, keys in lower case, each as often as it is written. -/
def written (t : Text) : Attributes :=
  (attributeForm.findAll t).map fun found => (Text.lower found.value.1, found.value.2)

theorem mem_of_mem_keepFirst {entry : Text × Text} {attributes : Attributes} :
    ∀ {seen : List Text}, entry ∈ keepFirst seen attributes → entry ∈ attributes := by
  induction attributes with
  | nil => intro seen h; exact h
  | cons first attributes ih =>
      intro seen h
      rw [keepFirst] at h
      split at h
      · exact List.mem_cons_of_mem _ (ih h)
      · rcases List.mem_cons.mp h with rfl | h
        · exact List.mem_cons_self
        · exact List.mem_cons_of_mem _ (ih h)

theorem lookup_keepFirst {key : Text} {attributes : Attributes} :
    ∀ {seen : List Text}, key ∉ seen →
      (keepFirst seen attributes).lookup key = attributes.lookup key := by
  induction attributes with
  | nil => intro seen _; rfl
  | cons first attributes ih =>
      obtain ⟨key', value⟩ := first
      intro seen hnew
      rw [keepFirst, List.lookup_cons]
      by_cases hkey : key = key'
      · subst hkey
        rw [if_neg hnew, List.lookup_cons_self, beq_self_eq_true]
      · rw [beq_eq_false_iff_ne.mpr hkey]
        split
        · exact ih hnew
        · rw [List.lookup_cons, beq_eq_false_iff_ne.mpr hkey]
          exact ih fun hm => (List.mem_cons.mp hm).elim hkey hnew

theorem nodup_keepFirst (attributes : Attributes) : ∀ seen : List Text,
    ((keepFirst seen attributes).map Prod.fst).Nodup ∧
      ∀ key ∈ seen, key ∉ (keepFirst seen attributes).map Prod.fst := by
  induction attributes with
  | nil => exact fun seen => ⟨List.nodup_nil, fun _ _ => List.not_mem_nil⟩
  | cons first attributes ih =>
      obtain ⟨key, value⟩ := first
      intro seen
      rw [keepFirst]
      split
      · exact ih seen
      · next hnew =>
        obtain ⟨hnodup, hseen⟩ := ih (key :: seen)
        refine ⟨List.nodup_cons.mpr ⟨hseen key List.mem_cons_self, hnodup⟩, fun key' hkey' hm => ?_⟩
        rcases List.mem_cons.mp hm with rfl | hm
        · exact hnew hkey'
        · exact hseen key' (List.mem_cons_of_mem _ hkey') hm

/-- The value that counts for a key is the first one written. -/
theorem lookup_readAttributes (t key : Text) :
    (readAttributes t).lookup key = (written t).lookup key :=
  lookup_keepFirst List.not_mem_nil

theorem nodup_readAttributes (t : Text) : ((readAttributes t).map Prod.fst).Nodup :=
  (nodup_keepFirst _ []).1

/-- A text of attributes and blanks. -/
inductive Laid : List Attribute → Text → Prop
  | blanks {gap : Text} : gap.isBlank = true → Laid [] gap
  | cons {gap : Text} {a : Attribute} {as : List Attribute} {t : Text} :
      gap.isBlank = true → a.Fits → Laid as t → Laid (a :: as) (gap ++ (a.text ++ t))

theorem written_append_of_isBlank {gap : Text} (h : gap.isBlank = true) (t : Text) :
    written (gap ++ t) = written t := by
  induction gap with
  | nil => rfl
  | cons g gap ih =>
      rw [Text.isBlank, List.all_cons, Bool.and_eq_true] at h
      rw [List.cons_append, written, Form.findAll_cons isBlind_attributeForm
        (attributeForm_of_isBlank h.1 none _), List.map_map, ← ih h.2]
      rfl

theorem cutAll_append_of_isBlank {gap : Text} (h : gap.isBlank = true) (t : Text) :
    attributeForm.cutAll (gap ++ t) = gap ++ attributeForm.cutAll t := by
  induction gap with
  | nil => rfl
  | cons g gap ih =>
      rw [Text.isBlank, List.all_cons, Bool.and_eq_true] at h
      rw [List.cons_append, Form.cutAll_cons isBlind_attributeForm
        (attributeForm_of_isBlank h.1 none _), ih h.2, List.cons_append]

theorem attributeForm_text {a : Attribute} (h : a.Fits) (t : Text) :
    attributeForm none (a.text ++ t) = some ((a.key, a.value), t) :=
  attributeForm_eq_some_iff.mpr ⟨a, h, rfl, rfl, rfl⟩

theorem written_text_append {a : Attribute} (h : a.Fits) (t : Text) :
    written (a.text ++ t) = (Text.lower a.key, a.value) :: written t := by
  rw [written, Form.findAll_read isBlind_attributeForm a.text_ne_nil (attributeForm_text h _),
    List.map_cons, List.map_map]
  rfl

namespace Laid

variable {as : List Attribute} {t : Text}

theorem written_eq (h : Laid as t) : written t = as.map fun a => (Text.lower a.key, a.value) := by
  induction h with
  | @blanks gap hgap =>
      rw [← List.append_nil gap, written_append_of_isBlank hgap]
      rfl
  | cons hgap ha _ ih =>
      rw [written_append_of_isBlank hgap, written_text_append ha, ih, List.map_cons]

theorem isBlank_cutAll (h : Laid as t) : (attributeForm.cutAll t).isBlank = true := by
  induction h with
  | @blanks gap hgap =>
      rw [← List.append_nil gap, cutAll_append_of_isBlank hgap, show attributeForm.cutAll [] = [] from
        rfl, List.append_nil, hgap]
  | cons hgap ha _ ih =>
      rw [cutAll_append_of_isBlank hgap, Form.cutAll_read isBlind_attributeForm
        (Attribute.text_ne_nil _) (attributeForm_text ha _), Text.isBlank, List.all_append,
        Bool.and_eq_true]
      exact ⟨hgap, ih⟩

theorem fits (h : Laid as t) : ∀ a ∈ as, a.Fits := by
  induction h with
  | blanks => exact fun a ha => absurd ha List.not_mem_nil
  | cons _ ha _ ih =>
      intro b hb
      rcases List.mem_cons.mp hb with rfl | hb
      · exact ha
      · exact ih b hb

theorem blank_cons (h : Laid as t) {g : Glyph} (hg : g.isBlank = true) : Laid as (g :: t) := by
  have hcons : ∀ {gap : Text}, gap.isBlank = true → Text.isBlank (g :: gap) = true := fun hgap => by
    rw [Text.isBlank, List.all_cons, hg]
    exact hgap
  cases h with
  | blanks hgap => exact .blanks (hcons hgap)
  | @cons gap a as t hgap ha h =>
      have hlaid : Laid (a :: as) ((g :: gap) ++ (a.text ++ t)) := .cons (hcons hgap) ha h
      exact hlaid

end Laid

/-- Where attributes leave only blanks, there are only attributes and blanks. -/
theorem exists_laid {t : Text} (h : (attributeForm.cutAll t).isBlank = true) :
    ∃ as, Laid as t := by
  induction hn : t.length using Nat.strongRecOn generalizing t with
  | ind n ih =>
      cases t with
      | nil => exact ⟨[], .blanks rfl⟩
      | cons g t =>
          cases hread : attributeForm none (g :: t) with
          | none =>
              rw [Form.cutAll_cons isBlind_attributeForm hread, Text.isBlank, List.all_cons,
                Bool.and_eq_true] at h
              obtain ⟨as, has⟩ := ih t.length (by rw [← hn]; exact Nat.lt_succ_self _) h.2 rfl
              exact ⟨as, has.blank_cons h.1⟩
          | some read =>
              obtain ⟨⟨key, value⟩, rest⟩ := read
              obtain ⟨a, ha, -, -, heq⟩ := attributeForm_eq_some_iff.mp hread
              rw [heq, Form.cutAll_read isBlind_attributeForm a.text_ne_nil
                (attributeForm_text ha rest)] at h
              have hlength : rest.length < n := by
                rw [← hn, heq, List.length_append]
                have := List.length_pos_iff.mpr a.text_ne_nil
                omega
              obtain ⟨as, has⟩ := ih rest.length hlength h rfl
              have hlaid : Laid (a :: as) ([] ++ (a.text ++ rest)) := .cons rfl ha has
              exact ⟨a :: as, heq ▸ hlaid⟩

/-! ## What a parameter says -/

def nameKey : Text := "name"

def typeKey : Text := "type"

def valueKey : Text := "value"

/-- The attributes of a marker, each as often as it is written. -/
def writtenIn (body : Text) : Attributes :=
  match firstWord? body with
  | some (_, rest) => written rest
  | none => []

/-- The value that a marker carries. -/
def valueOf (body : Text) : Text :=
  match classify body with
  | some (_, attributes) => (attributes.lookup valueKey).getD []
  | none => []

theorem isReader_attributeForm : attributeForm.IsReader := by
  rintro before t ⟨key, value⟩ rest h
  obtain ⟨a, -, -, -, rfl⟩ := attributeForm_eq_some_iff.mp h
  exact ⟨a.text, a.text_ne_nil, rfl⟩

/-- What is written stands in the text as an attribute. -/
theorem exists_of_mem_written {t : Text} {entry : Text × Text} (h : entry ∈ written t) :
    ∃ a : Attribute, a.Fits ∧ a.value = entry.2 ∧ a.text <:+: t := by
  obtain ⟨found, hfound, rfl⟩ := List.mem_map.mp h
  obtain ⟨u, before, read, rest, htext, -, hread, -, -⟩ :=
    Form.exists_split_of_mem_findFrom isReader_attributeForm hfound
  obtain ⟨a, ha, -, hvalue, hsplit⟩ := attributeForm_eq_some_iff.mp hread
  refine ⟨a, ha, hvalue, u, rest, ?_⟩
  rw [htext, hsplit, List.append_assoc]

/-- The attributes that a marker has stand in it. -/
theorem exists_of_mem_classify {body : Text} {kind : Kind} {attributes : Attributes}
    (h : classify body = some (kind, attributes)) {entry : Text × Text} (hentry : entry ∈ attributes) :
    ∃ a : Attribute, a.Fits ∧ a.value = entry.2 ∧ a.text <:+: body := by
  obtain ⟨word, rest, hfirst, -, hcarries⟩ := classify_eq_some_iff.mp h
  obtain ⟨gap, rfl, -⟩ := firstWord?_eq_some_iff.mp hfirst
  rw [Carries] at hcarries
  split at hcarries
  · rw [hcarries.2] at hentry
    cases hentry
  · rw [hcarries.1] at hentry
    obtain ⟨a, ha, hvalue, hwithin⟩ := exists_of_mem_written (mem_of_mem_keepFirst hentry)
    refine ⟨a, ha, hvalue, hwithin.trans ?_⟩
    exact ((List.suffix_append word rest).trans (List.suffix_append gap _)).isInfix

/-- What stands between quotes in a comment holds no delimiter of comments. -/
theorem Attribute.isQuiet_value {a : Attribute} {body : Text} (hbody : IsBody body)
    (hwithin : a.text <:+: body) : isQuiet a.value = true := by
  obtain ⟨x, y, rfl⟩ := hwithin
  have hquote : Inert (.char '"') := by decide
  have hsplit : x ++ a.text ++ y = (x ++ (a.key ++ (a.gap ++ .char '=' :: a.gap'))) ++
      .char '"' :: (a.value ++ .char '"' :: y) := by simp [Attribute.text, Attribute.head]
  rw [hsplit, isBody_append_cons hquote, isBody_append_cons hquote] at hbody
  exact hbody.2.1

/-- The value that a marker carries is empty, or stands in it between quotes. -/
theorem valueOf_cases (body : Text) : valueOf body = [] ∨
    ∃ a : Attribute, a.Fits ∧ a.value = valueOf body ∧ a.text <:+: body := by
  rw [valueOf]
  split
  · next attributes hclass =>
    cases hlookup : attributes.lookup valueKey with
    | none => exact Or.inl rfl
    | some value =>
        obtain ⟨before, behind, rfl, -⟩ := List.lookup_eq_some_iff.mp hlookup
        exact Or.inr (exists_of_mem_classify hclass (List.mem_append_right before List.mem_cons_self))
  · exact Or.inl rfl

theorem no_quote_valueOf (body : Text) : Glyph.char '"' ∉ valueOf body := by
  rcases valueOf_cases body with hnil | ⟨a, ha, hvalue, -⟩
  · rw [hnil]
    exact List.not_mem_nil
  · exact hvalue ▸ ha.no_quote

theorem valueOf_subset (body : Text) : valueOf body ⊆ body := by
  rcases valueOf_cases body with hnil | ⟨a, -, hvalue, hwithin⟩
  · rw [hnil]
    exact List.nil_subset body
  · intro g hg
    refine hwithin.subset ?_
    rw [Attribute.text, hvalue]
    simp [hg]

/-- A parameter is declared by its name, its type and its value, each given once; name and type
hold no sign. -/
structure IsDeclaration (body : Text) : Prop where
  keys : ((writtenIn body).map Prod.fst).Perm [nameKey, typeKey, valueKey]
  no_sign : ∀ entry ∈ writtenIn body, entry.1 ≠ valueKey → Glyph.char '=' ∉ entry.2

instance (body : Text) : Decidable (IsDeclaration body) :=
  decidable_of_iff (((writtenIn body).map Prod.fst).Perm [nameKey, typeKey, valueKey] ∧
      ∀ entry ∈ writtenIn body, entry.1 ≠ valueKey → Glyph.char '=' ∉ entry.2)
    ⟨fun ⟨h₁, h₂⟩ => ⟨h₁, h₂⟩, fun ⟨h₁, h₂⟩ => ⟨h₁, h₂⟩⟩

/-- A parameter is declared by its name, its type and its value and by nothing else, and name and
type hold no sign. Where a key is given again, its first value is the one that counts. -/
structure Declares (body : Text) : Prop where
  known : ∀ entry ∈ writtenIn body, entry.1 ∈ [nameKey, typeKey, valueKey]
  given : ∀ key ∈ [nameKey, typeKey, valueKey], key ∈ (writtenIn body).map Prod.fst
  no_sign : ∀ entry ∈ writtenIn body, entry.1 ≠ valueKey → Glyph.char '=' ∉ entry.2

instance (body : Text) : Decidable (Declares body) :=
  decidable_of_iff ((∀ entry ∈ writtenIn body, entry.1 ∈ [nameKey, typeKey, valueKey]) ∧
      (∀ key ∈ [nameKey, typeKey, valueKey], key ∈ (writtenIn body).map Prod.fst) ∧
      ∀ entry ∈ writtenIn body, entry.1 ≠ valueKey → Glyph.char '=' ∉ entry.2)
    ⟨fun ⟨h₁, h₂, h₃⟩ => ⟨h₁, h₂, h₃⟩, fun ⟨h₁, h₂, h₃⟩ => ⟨h₁, h₂, h₃⟩⟩

theorem IsDeclaration.declares {body : Text} (h : IsDeclaration body) : Declares body where
  known := fun _ hentry => h.keys.subset (List.mem_map_of_mem hentry)
  given := fun _ hkey => h.keys.symm.subset hkey
  no_sign := h.no_sign

/-- What `classify` asks of a parameter. -/
theorem classify_param {body word rest : Text} {side : Side}
    (hfirst : firstWord? body = some (word, rest))
    (hof : Kind.ofKeyword? word = some (.param side)) (attributes : Attributes) :
    classify body = some (.param side, attributes) ↔
      attributes = readAttributes rest ∧ (attributes.lookup nameKey).isSome = true ∧
        (attributeForm.cutAll rest).isBlank = true := by
  rw [classify_eq_some_iff]
  constructor
  · rintro ⟨word', rest', hfirst', -, hread, hsome, hblank⟩
    rw [hfirst] at hfirst'
    obtain ⟨rfl, rfl⟩ := Prod.mk.inj (Option.some.inj hfirst')
    exact ⟨hread, hsome, hblank.resolve_left nofun⟩
  · rintro ⟨hread, hsome, hblank⟩
    exact ⟨word, rest, hfirst, hof, hread, hsome, Or.inr hblank⟩

end Marker

end Stencil
