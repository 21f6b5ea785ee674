import Stencil.Proofs.Marker.Attributes

/-!
# The grammar of markers

What a comment must say to be a marker, kind by kind (`Grammar`): an end marker is its keyword and
blanks; a region or a parameter is its keyword and then attributes and blanks, with a name among
them; a binding is its keyword and anything that a search from left to right finds a template in.
`classify` takes exactly these comments, and its token holds the first value of each key
(`classify_grammar`).

`classify` itself deletes the attributes and looks at what is left. That this decides the grammar
rests on the search being unambiguous: blanks never begin an attribute, and an attribute is read up
to its closing quote and no further, so however attributes and blanks are laid out, the search
meets just these (`Laid.written_eq`, `Sought.written_eq`).
-/

namespace Stencil.Marker

def templateKey : Text := "template"

/-! ## The keyword -/

namespace Kind

theorem ofKeyword?_eq_some_iff {word : Text} {kind : Kind} : ofKeyword? word = some kind ↔
    word.map Glyph.asciiLower = kind.keyword.map Glyph.asciiLower := by
  constructor
  · intro h
    rw [ofKeyword?] at h
    have hfound := List.find?_some h
    exact eq_of_beq hfound
  · intro h
    rw [← ofKeyword?_keyword kind, ofKeyword?, ofKeyword?, h]

theorem isLetter_keyword (kind : Kind) :
    ∀ g ∈ kind.keyword.map Glyph.asciiLower, g.isLetter = true := by
  rcases kind with side | side | side | _ | _ <;> (try cases side) <;> decide +kernel

end Kind

/-- A body opens with the keyword of a kind, in any mixture of upper and lower case and after any
blanks; what follows is nothing or begins with a blank. -/
def Opens (kind : Kind) (body rest : Text) : Prop :=
  ∃ gap word : Text, body = gap ++ (word ++ rest) ∧ gap.isBlank = true ∧
    word.map Glyph.asciiLower = kind.keyword.map Glyph.asciiLower ∧ EndsWord rest

theorem isWord_of_keyword {word : Text} {kind : Kind}
    (h : word.map Glyph.asciiLower = kind.keyword.map Glyph.asciiLower) : IsWord word where
  ne_nil := by
    rintro rfl
    exact (kind.isWord_keyword).ne_nil (List.map_eq_nil_iff.mp h.symm)
  letters := fun _ hg => Glyph.isLetter_of_asciiLower
    (kind.isLetter_keyword _ (h ▸ List.mem_map_of_mem hg))

theorem opens_iff {kind : Kind} {body rest : Text} : Opens kind body rest ↔
    ∃ word, firstWord? body = some (word, rest) ∧ Kind.ofKeyword? word = some kind := by
  simp only [firstWord?_eq_some_iff, Kind.ofKeyword?_eq_some_iff]
  constructor
  · rintro ⟨gap, word, hbody, hgap, hword, hrest⟩
    exact ⟨word, ⟨gap, hbody, hgap, isWord_of_keyword hword, hrest⟩, hword⟩
  · rintro ⟨word, ⟨gap, hbody, hgap, -, hrest⟩, hword⟩
    exact ⟨gap, word, hbody, hgap, hword, hrest⟩

/-! ## The search for attributes -/

/-- The attributes that a search of a text from left to right meets. A glyph at which no attribute
begins is passed over; behind an attribute the search goes on. -/
inductive Sought : List Attribute → Text → Prop
  | nil : Sought [] []
  | pass {as : List Attribute} {g : Glyph} {t : Text} :
      (∀ (a : Attribute) (rest : Text), a.Fits → g :: t ≠ a.text ++ rest) → Sought as t →
        Sought as (g :: t)
  | take {a : Attribute} {as : List Attribute} {t : Text} :
      a.Fits → Sought as t → Sought (a :: as) (a.text ++ t)

theorem attributeForm_eq_none_iff {t : Text} : attributeForm none t = none ↔
    ∀ (a : Attribute) (rest : Text), a.Fits → t ≠ a.text ++ rest := by
  rw [Option.eq_none_iff_forall_ne_some]
  constructor
  · rintro h a rest ha rfl
    exact h _ (attributeForm_text ha rest)
  · rintro h ⟨⟨key, value⟩, rest⟩ hread
    obtain ⟨a, ha, -, -, heq⟩ := attributeForm_eq_some_iff.mp hread
    exact h a rest ha heq

namespace Sought

variable {as : List Attribute} {t : Text}

theorem written_eq (h : Sought as t) :
    written t = as.map fun a => (Text.lower a.key, a.value) := by
  induction h with
  | nil => rfl
  | pass hnone _ ih =>
      rw [written, Form.findAll_cons isBlind_attributeForm (attributeForm_eq_none_iff.mpr hnone),
        List.map_map, ← ih]
      rfl
  | take ha _ ih => rw [written_text_append ha, ih, List.map_cons]

end Sought

theorem exists_sought (t : Text) : ∃ as, Sought as t := by
  induction hn : t.length using Nat.strongRecOn generalizing t with
  | ind n ih =>
      subst hn
      cases t with
      | nil => exact ⟨[], .nil⟩
      | cons g t =>
          cases hread : attributeForm none (g :: t) with
          | none =>
              obtain ⟨as, has⟩ := ih t.length (Nat.lt_succ_self _) t rfl
              exact ⟨as, .pass (attributeForm_eq_none_iff.mp hread) has⟩
          | some read =>
              obtain ⟨⟨key, value⟩, rest⟩ := read
              obtain ⟨a, ha, -, -, heq⟩ := attributeForm_eq_some_iff.mp hread
              have hlength : rest.length < (g :: t).length := by
                rw [heq, List.length_append]
                have := List.length_pos_iff.mpr a.text_ne_nil
                omega
              obtain ⟨as, has⟩ := ih rest.length hlength rest rfl
              exact ⟨a :: as, heq ▸ .take ha has⟩

/-! ## The grammar -/

/-- What the body of a marker of a kind is, and the attributes that are written in it. -/
inductive Grammar (body : Text) : Kind → List Attribute → Prop
  | regionEnd {side : Side} {rest : Text} : Opens (.regionEnd side) body rest →
      rest.isBlank = true → Grammar body (.regionEnd side) []
  | bindingEnd {rest : Text} : Opens .bindingEnd body rest → rest.isBlank = true →
      Grammar body .bindingEnd []
  | regionBegin {side : Side} {rest : Text} {as : List Attribute} :
      Opens (.regionBegin side) body rest → Laid as rest →
        (∃ a ∈ as, Text.lower a.key = nameKey) → Grammar body (.regionBegin side) as
  | param {side : Side} {rest : Text} {as : List Attribute} : Opens (.param side) body rest →
      Laid as rest → (∃ a ∈ as, Text.lower a.key = nameKey) → Grammar body (.param side) as
  | binding {rest : Text} {as : List Attribute} : Opens .binding body rest → Sought as rest →
      (∃ a ∈ as, Text.lower a.key = templateKey) → Grammar body .binding as

/-- The first value given under a key, with keys compared in lower case. -/
def firstValue (key : Text) (as : List Attribute) : Option Text :=
  (as.find? fun a => Text.lower a.key = key).map (·.value)

/-- What a token takes from the attributes written in its marker. -/
structure Takes (as : List Attribute) (token : Token) : Prop where
  nodup : (token.attributes.map Prod.fst).Nodup
  first : ∀ key, token.attributes.lookup key = firstValue key as
  name : ∀ key, token.kind.nameKey? = some key → firstValue key as = some token.name
  bare : token.kind.nameKey? = none → token.attributes = [] ∧ token.name = []

theorem lookup_map_lower (key : Text) (as : List Attribute) :
    (as.map fun a => (Text.lower a.key, a.value)).lookup key = firstValue key as := by
  induction as with
  | nil => rfl
  | cons a as ih =>
      rw [List.map_cons, List.lookup_cons, firstValue, List.find?_cons]
      by_cases hkey : Text.lower a.key = key
      · rw [decide_eq_true hkey, beq_iff_eq.mpr hkey.symm]
        rfl
      · rw [decide_eq_false hkey, beq_eq_false_iff_ne.mpr fun h => hkey h.symm]
        exact ih

theorem isSome_firstValue {key : Text} {as : List Attribute} :
    (firstValue key as).isSome = true ↔ ∃ a ∈ as, Text.lower a.key = key := by
  simp [firstValue]

/-- What is recorded of the attributes written in a marker of a kind. -/
structure Records (kind : Kind) (as : List Attribute) (attributes : Attributes) : Prop where
  nodup : (attributes.map Prod.fst).Nodup
  first : ∀ key, attributes.lookup key = firstValue key as
  named : ∀ key, kind.nameKey? = some key → (firstValue key as).isSome = true
  bare : kind.nameKey? = none → attributes = []

/-- A keyword alone is a marker of a kind that has no attributes. -/
theorem Opens.exists_of_blank {kind : Kind} {body rest : Text} (h : Opens kind body rest)
    (hkey : kind.nameKey? = none) (hblank : rest.isBlank = true) :
    ∃ attributes, classify body = some (kind, attributes) ∧ Records kind [] attributes := by
  obtain ⟨word, hfirst, hof⟩ := opens_iff.mp h
  have hcarries : Carries kind rest [] := by
    rw [Carries, hkey]
    exact ⟨hblank, rfl⟩
  refine ⟨[], classify_eq_some_iff.mpr ⟨word, rest, hfirst, hof, hcarries⟩, List.nodup_nil,
    fun _ => rfl, fun key hsome => ?_, fun _ => rfl⟩
  rw [hkey] at hsome
  cases hsome

/-- A keyword and attributes are a marker of a kind that is named by one of them. -/
theorem Opens.exists_of_written {kind : Kind} {body rest key : Text} {as : List Attribute}
    (h : Opens kind body rest) (hkey : kind.nameKey? = some key)
    (hwritten : written rest = as.map fun a => (Text.lower a.key, a.value))
    (hnamed : ∃ a ∈ as, Text.lower a.key = key)
    (hblank : kind = .binding ∨ (attributeForm.cutAll rest).isBlank = true) :
    ∃ attributes, classify body = some (kind, attributes) ∧ Records kind as attributes := by
  obtain ⟨word, hfirst, hof⟩ := opens_iff.mp h
  have hlookup : ∀ key, (readAttributes rest).lookup key = firstValue key as := fun key => by
    rw [lookup_readAttributes, hwritten, lookup_map_lower]
  have hsome : (firstValue key as).isSome = true := isSome_firstValue.mpr hnamed
  have hcarries : Carries kind rest (readAttributes rest) := by
    rw [Carries, hkey]
    exact ⟨rfl, by rw [hlookup, hsome], hblank⟩
  refine ⟨readAttributes rest, classify_eq_some_iff.mpr ⟨word, rest, hfirst, hof, hcarries⟩,
    nodup_readAttributes rest, hlookup, fun key' hkey' => ?_, fun hnone => ?_⟩
  · rw [hkey] at hkey'
    rw [← Option.some.inj hkey', hsome]
  · rw [hkey] at hnone
    cases hnone

/-- A comment by the grammar is a marker. -/
theorem Grammar.exists_classify {body : Text} {kind : Kind} {as : List Attribute}
    (h : Grammar body kind as) :
    ∃ attributes, classify body = some (kind, attributes) ∧ Records kind as attributes := by
  cases h with
  | regionEnd hopens hblank => exact hopens.exists_of_blank rfl hblank
  | bindingEnd hopens hblank => exact hopens.exists_of_blank rfl hblank
  | regionBegin hopens hlaid hname =>
      exact hopens.exists_of_written rfl hlaid.written_eq hname (.inr hlaid.isBlank_cutAll)
  | param hopens hlaid hname =>
      exact hopens.exists_of_written rfl hlaid.written_eq hname (.inr hlaid.isBlank_cutAll)
  | binding hopens hsought htemplate =>
      exact hopens.exists_of_written rfl hsought.written_eq htemplate (.inl rfl)

/-- A marker is a comment by the grammar. -/
theorem exists_grammar {body : Text} {kind : Kind} {attributes : Attributes}
    (h : classify body = some (kind, attributes)) : ∃ as, Grammar body kind as := by
  obtain ⟨word, rest, hfirst, hof, hcarries⟩ := classify_eq_some_iff.mp h
  have hopens : Opens kind body rest := opens_iff.mpr ⟨word, hfirst, hof⟩
  have hhas : ∀ {as : List Attribute} {key : Text},
      (written rest = as.map fun a => (Text.lower a.key, a.value)) →
        attributes = readAttributes rest → (attributes.lookup key).isSome = true →
          ∃ a ∈ as, Text.lower a.key = key := by
    rintro as key hwritten rfl hsome
    rwa [lookup_readAttributes, hwritten, lookup_map_lower, isSome_firstValue] at hsome
  cases kind with
  | regionEnd side => exact ⟨[], .regionEnd hopens hcarries.1⟩
  | bindingEnd => exact ⟨[], .bindingEnd hopens hcarries.1⟩
  | regionBegin side =>
      obtain ⟨hread, hsome, hblank⟩ := hcarries
      obtain ⟨as, hlaid⟩ := exists_laid (hblank.resolve_left nofun)
      exact ⟨as, .regionBegin hopens hlaid (hhas hlaid.written_eq hread hsome)⟩
  | param side =>
      obtain ⟨hread, hsome, hblank⟩ := hcarries
      obtain ⟨as, hlaid⟩ := exists_laid (hblank.resolve_left nofun)
      exact ⟨as, .param hopens hlaid (hhas hlaid.written_eq hread hsome)⟩
  | binding =>
      obtain ⟨hread, hsome, -⟩ := hcarries
      obtain ⟨as, hsought⟩ := exists_sought rest
      exact ⟨as, .binding hopens hsought (hhas hsought.written_eq hread hsome)⟩

/-- A comment is a marker of a kind just when its body is one by the grammar. Its token has the first
value of each key that is written in it, and the one under the naming key of its kind is its name;
end markers have neither attributes nor a name. -/
theorem classify_grammar (body : Text) (kind : Kind) :
    ((∃ attributes, classify body = some (kind, attributes)) ↔ ∃ as, Grammar body kind as) ∧
      ∀ as, Grammar body kind as → ∀ starts place, ∃ token,
        tokenOf? starts ⟨place, body⟩ = some token ∧
          classify body = some (kind, token.attributes) ∧ token.kind = kind ∧ Takes as token := by
  refine ⟨⟨fun ⟨attributes, hclass⟩ => exists_grammar hclass, fun ⟨as, h⟩ => ?_⟩,
    fun as h starts place => ?_⟩
  · obtain ⟨attributes, hclass, -⟩ := h.exists_classify
    exact ⟨attributes, hclass⟩
  · obtain ⟨attributes, hclass, hrecords⟩ := h.exists_classify
    refine ⟨_, by rw [tokenOf?, hclass, Option.map_some], hclass, rfl, hrecords.nodup,
      hrecords.first, fun key hkey => ?_, fun hnone => ⟨hrecords.bare hnone, ?_⟩⟩
    · obtain ⟨name, hfirst⟩ := Option.isSome_iff_exists.mp (hrecords.named key hkey)
      dsimp only at hkey ⊢
      rw [hkey, Option.bind_some, hrecords.first, hfirst, Option.getD_some]
    · dsimp only at hnone ⊢
      rw [hnone]
      rfl

/-- A region that is named twice. -/
def namedTwice : Text := " templateBeginEditable name=\"a\"NAME = \"b\" "

theorem classify_namedTwice : ∃ as token, Grammar namedTwice (.regionBegin .template) as ∧
    tokenOf? [0] ⟨0, namedTwice⟩ = some token ∧ Takes as token ∧ token.name = "a" := by
  obtain ⟨hiff, htokens⟩ := classify_grammar namedTwice (.regionBegin .template)
  obtain ⟨as, h⟩ := hiff.mp (kind?_eq_some_iff.mp (by decide +kernel))
  obtain ⟨token, htoken, -, -, htakes⟩ := htokens as h [0] 0
  refine ⟨as, token, h, htoken, htakes, ?_⟩
  have hname : (tokenOf? [0] ⟨0, namedTwice⟩).map (·.name) = some "a" := by decide +kernel
  rw [htoken] at hname
  exact Option.some.inj hname

end Stencil.Marker
