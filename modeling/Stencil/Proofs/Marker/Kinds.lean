import Stencil.Proofs.Marker.Comments

/-!
# Markers of joined texts

The Prop layer over `scan`: what a comment says is read off its body alone (`kind?`, `nameOf`), so
questions about the markers of a text are questions about its bodies (`lacks_iff`), and a text
lacks a kind when its parts do.

The second half is about changing what a comment says. Glyphs that stand in neither delimiter are
*inert*; a body may be cut at any of them (`isBody_append_cons`), so words and quoted values can be
exchanged without the comment ending elsewhere (`isBody_inert_iff`). What `classify` asks of a body
is said once, for all kinds (`classify_eq_some_iff`), so a marker that gets another keyword is read
as before (`classify_rename`).
-/

namespace Stencil

/-! ## Words and blanks -/

theorem Glyph.isBlank_eq_false_of_isLetter {g : Glyph} (h : g.isLetter = true) :
    g.isBlank = false := by
  simp only [isLetter, Bool.or_eq_true, Bool.and_eq_true, decide_eq_true_eq] at h
  simp only [isBlank, Bool.or_eq_false_iff, Bool.and_eq_false_iff, decide_eq_false_iff_not,
    beq_eq_false_iff_ne]
  omega

theorem Glyph.isLetter_of_asciiLower {g : Glyph} (h : g.asciiLower.isLetter = true) :
    g.isLetter = true := by
  cases g with
  | byte b high => exact h
  | char c =>
      rw [asciiLower] at h
      delta Char.toLower at h
      split at h
      · next hcapital =>
        have hlow := UInt32.le_iff_toNat_le.mp hcapital.1
        have hhigh := UInt32.le_iff_toNat_le.mp hcapital.2
        have : 0x41 ≤ c.toNat ∧ c.toNat ≤ 0x5a := ⟨hlow, hhigh⟩
        simp [isLetter, code, this]
      · exact h

namespace Text

theorem not_mem_of_isBlank {t : Text} (h : t.isBlank = true) {g : Glyph} (hg : g.isBlank = false) :
    g ∉ t := fun hm => by
  rw [List.all_eq_true.mp h g hm] at hg
  cases hg

theorem takeWhile_append_of_stop {p : Glyph → Bool} {t u : Text} (ht : ∀ g ∈ t, p g = true)
    (hu : ∀ g, u.head? = some g → p g = false) : (t ++ u).takeWhile p = t := by
  induction t with
  | nil =>
      cases u with
      | nil => rfl
      | cons g u => simp [hu g rfl]
  | cons g t ih =>
      rw [List.cons_append, List.takeWhile_cons_of_pos (ht g List.mem_cons_self),
        ih fun g' hg' => ht g' (List.mem_cons_of_mem _ hg')]

theorem dropWhile_append_of_stop {p : Glyph → Bool} {t u : Text} (ht : ∀ g ∈ t, p g = true)
    (hu : ∀ g, u.head? = some g → p g = false) : (t ++ u).dropWhile p = u := by
  induction t with
  | nil =>
      cases u with
      | nil => rfl
      | cons g u => simp [hu g rfl]
  | cons g t ih =>
      rw [List.cons_append, List.dropWhile_cons_of_pos (ht g List.mem_cons_self),
        ih fun g' hg' => ht g' (List.mem_cons_of_mem _ hg')]

end Text

namespace Marker

/-! ## What a body says -/

/-- The kind of the marker that a comment with this body is, if it is one. -/
def kind? (body : Text) : Option Kind := (classify body).map (·.1)

/-- The name that the marker carries. -/
def nameOf (body : Text) : Text :=
  match classify body with
  | some (kind, attributes) => (kind.nameKey?.bind (attributes.lookup ·)).getD []
  | none => []

theorem kind?_eq_some_iff {body : Text} {kind : Kind} :
    kind? body = some kind ↔ ∃ attributes, classify body = some (kind, attributes) := by
  simp [kind?]

/-- The tokens of a text whose first glyph has offset `place`, in a text with these lines. -/
def tokensFrom (starts : List Nat) (place : Nat) (t : Text) : List Token :=
  (commentsFrom place t).filterMap (tokenOf? starts)

theorem scan_eq_tokensFrom (t : Text) : scan t = tokensFrom (Position.lineStarts t) 0 t := rfl

/-- What the token of a comment says, and where it stands. -/
theorem tokenOf?_eq_some {starts : List Nat} {c : Comment} {token : Token}
    (h : tokenOf? starts c = some token) :
    kind? c.body = some token.kind ∧ nameOf c.body = token.name ∧ token.start = c.start ∧
      token.stop = c.stop ∧ token.raw = wrap c.body := by
  obtain ⟨⟨kind, attributes⟩, hclass, rfl⟩ := Option.map_eq_some_iff.mp h
  exact ⟨kind?_eq_some_iff.mpr ⟨attributes, hclass⟩, by rw [nameOf, hclass], rfl, rfl, rfl⟩

theorem exists_tokenOf? (starts : List Nat) {c : Comment} {kind : Kind}
    (h : kind? c.body = some kind) :
    ∃ token, tokenOf? starts c = some token ∧ token.kind = kind := by
  obtain ⟨attributes, hclass⟩ := kind?_eq_some_iff.mp h
  exact ⟨_, by rw [tokenOf?, hclass, Option.map_some], rfl⟩

theorem tokensFrom_insert (starts : List Nat) (p : Nat) (t : Text) {body : Text} (h : IsBody body)
    (u : Text) :
    tokensFrom starts p (t ++ (wrap body ++ u)) =
      tokensFrom starts p t ++ ((tokenOf? starts ⟨p + t.length, body⟩).toList ++
        tokensFrom starts (p + t.length + (wrap body).length) u) := by
  rw [tokensFrom, commentsFrom_insert p t h, List.filterMap_append, List.filterMap_cons]
  cases tokenOf? starts ⟨p + t.length, body⟩ <;> rfl

theorem tokensFrom_eq_nil {t : Text} (h : bodies t = []) (starts : List Nat) (p : Nat) :
    tokensFrom starts p t = [] := by
  rw [← map_body_commentsFrom_eq p, List.map_eq_nil_iff] at h
  rw [tokensFrom, h, List.filterMap_nil]

/-- Markers come in the order of their places. -/
theorem pairwise_tokensFrom (starts : List Nat) (p : Nat) (t : Text) :
    (tokensFrom starts p t).Pairwise fun token token' => token.start < token'.start := by
  obtain ⟨hpairwise, hwithin⟩ := pairwise_commentsFrom p t
  have hstarts : (commentsFrom p t).Pairwise fun c c' => c.start < c'.start :=
    hpairwise.imp_of_mem fun {c c'} hc _ hle => (hwithin c hc).2.1.trans_le hle
  refine hstarts.filterMap _ fun c c' hlt token htoken token' htoken' => ?_
  rw [(tokenOf?_eq_some htoken).2.2.1, (tokenOf?_eq_some htoken').2.2.1]
  exact hlt

theorem exists_body_of_mem_tokensFrom {starts : List Nat} {p : Nat} {t : Text} {token : Token}
    (h : token ∈ tokensFrom starts p t) :
    ∃ body ∈ bodies t, kind? body = some token.kind ∧ token.raw = wrap body := by
  obtain ⟨c, hc, htoken⟩ := List.mem_filterMap.mp h
  obtain ⟨hkind, -, -, -, hraw⟩ := tokenOf?_eq_some htoken
  refine ⟨c.body, ?_, hkind, hraw⟩
  rw [← map_body_commentsFrom_eq p]
  exact List.mem_map_of_mem hc

theorem exists_token_of_mem_bodies (starts : List Nat) (p : Nat) {t body : Text} {kind : Kind}
    (h : body ∈ bodies t) (hkind : kind? body = some kind) :
    ∃ token ∈ tokensFrom starts p t, token.kind = kind ∧ token.raw = wrap body := by
  rw [← map_body_commentsFrom_eq p] at h
  obtain ⟨c, hc, rfl⟩ := List.mem_map.mp h
  obtain ⟨token, htoken, rfl⟩ := exists_tokenOf? starts hkind
  exact ⟨token, List.mem_filterMap.mpr ⟨c, hc, htoken⟩, rfl, (tokenOf?_eq_some htoken).2.2.2.2⟩

/-! ## Texts without markers of some kinds -/

/-- No marker of a text is of one of these kinds. -/
def Lacks (kinds : List Kind) (t : Text) : Prop := ∀ token ∈ scan t, token.kind ∉ kinds

instance (kinds : List Kind) (t : Text) : Decidable (Lacks kinds t) :=
  inferInstanceAs (Decidable (∀ token ∈ scan t, token.kind ∉ kinds))

theorem Lacks.mono {kinds kinds' : List Kind} (h : kinds ⊆ kinds') {t : Text}
    (hlacks : Lacks kinds' t) : Lacks kinds t := fun token htoken hmem => hlacks token htoken (h hmem)

/-- No comment of a text says what `Q` describes. -/
def Silent (Q : Text → Prop) (t : Text) : Prop := ∀ body ∈ bodies t, ¬ Q body

/-- A body is that of a marker of one of these kinds. -/
def Says (kinds : List Kind) (body : Text) : Prop := ∃ kind ∈ kinds, kind? body = some kind

theorem lacks_iff {kinds : List Kind} {t : Text} : Lacks kinds t ↔ Silent (Says kinds) t := by
  constructor
  · rintro h body hb ⟨kind, hmem, hkind⟩
    obtain ⟨token, htoken, rfl, -⟩ := exists_token_of_mem_bodies (Position.lineStarts t) 0 hb hkind
    exact h token htoken hmem
  · intro h token htoken hmem
    obtain ⟨body, hb, hkind, -⟩ := exists_body_of_mem_tokensFrom htoken
    exact h body hb ⟨token.kind, hmem, hkind⟩

theorem says_iff_mem {kinds : List Kind} {body : Text} {kind : Kind} (h : kind? body = some kind) :
    Says kinds body ↔ kind ∈ kinds := by
  simp [Says, h]

theorem Says.mono {kinds kinds' : List Kind} (h : kinds ⊆ kinds') {body : Text}
    (hsaid : Says kinds body) : Says kinds' body := by
  obtain ⟨kind, hmem, hkind⟩ := hsaid
  exact ⟨kind, h hmem, hkind⟩

section Silent

variable {Q : Text → Prop} {t u : Text}

@[simp] theorem silent_nil : Silent Q [] := by simp [Silent]

theorem Silent.left (h : Silent Q (t ++ u)) : Silent Q t :=
  fun body hb => h body (mem_bodies_append_left hb u)

theorem Silent.right (h : Silent Q (t ++ u)) : Silent Q u :=
  fun body hb => h body (mem_bodies_append_right hb)

theorem Silent.mono {Q' : Text → Prop} (himp : ∀ body, Q body → Q' body) (h : Silent Q' t) :
    Silent Q t := fun body hb hQ => h body hb (himp body hQ)

end Silent

/-! ## Comments set between blanks -/

theorem bodies_append_of_no_start {t : Text} (h : Glyph.char '<' ∉ t) (u : Text) :
    bodies (t ++ u) = bodies u := by
  induction t with
  | nil => rfl
  | cons g t ih =>
      have hg : g ≠ .char '<' := fun heq => h (heq ▸ List.mem_cons_self)
      have ho : opener.isPrefixOf (g :: (t ++ u)) = false := by
        rw [opener, List.isPrefixOf, beq_eq_false_iff_ne.mpr hg.symm, Bool.false_and]
      rw [List.cons_append, bodies_cons, commentAt?_of_not_opener ho,
        ih fun hm => h (List.mem_cons_of_mem _ hm)]
      rfl

/-- A text that adds just one comment, with this body, wherever it is put. -/
def IsInlay (body inlay : Text) : Prop :=
  ∀ t u, bodies (t ++ (inlay ++ u)) = bodies t ++ body :: bodies u

theorem isInlay_wrap {body : Text} (h : IsBody body) : IsInlay body (wrap body) :=
  fun t u => bodies_insert t h u

theorem isInlay_blanks_wrap {gap body : Text} (hgap : gap.isBlank = true) (h : IsBody body) :
    IsInlay body (gap ++ wrap body) := by
  intro t u
  rw [List.append_assoc, ← List.append_assoc t, bodies_insert _ h,
    bodies_append_of_no_end t (Text.not_mem_of_isBlank hgap (by decide))]

theorem isInlay_wrap_blanks {gap body : Text} (hgap : gap.isBlank = true) (h : IsBody body) :
    IsInlay body (wrap body ++ gap) := by
  intro t u
  rw [List.append_assoc, bodies_insert _ h,
    bodies_append_of_no_start (Text.not_mem_of_isBlank hgap (by decide))]

theorem Silent.inlay {Q : Text → Prop} {t u body inlay : Text} (h : Silent Q (t ++ u))
    (hx : IsInlay body inlay) (hbody : ¬ Q body) : Silent Q (t ++ (inlay ++ u)) := by
  intro b hb
  rw [hx, List.mem_append, List.mem_cons] at hb
  rcases hb with hb | rfl | hb
  · exact h.left b hb
  · exact hbody
  · exact h.right b hb

/-! ## Cutting a body at inert glyphs -/

/-- A glyph that stands in neither delimiter of comments. -/
def Inert (g : Glyph) : Prop := g ∉ opener ∧ g ∉ closer

instance (g : Glyph) : Decidable (Inert g) := inferInstanceAs (Decidable (_ ∧ _))

/-- Whether a text holds no delimiter of comments. -/
def isQuiet : Text → Bool
  | [] => true
  | g :: t => !closer.isPrefixOf (g :: t) && !opener.isPrefixOf (g :: t) && isQuiet t

theorem isQuiet_iff {t : Text} : isQuiet t = true ↔ ¬ opener <:+: t ∧ ¬ closer <:+: t := by
  induction t with
  | nil => decide
  | cons g t ih =>
      rw [isQuiet, Bool.and_eq_true, Bool.and_eq_true, ih, List.infix_cons_iff, List.infix_cons_iff,
        not_or, not_or, ← List.isPrefixOf_iff_prefix, ← List.isPrefixOf_iff_prefix, Bool.not_eq_true',
        Bool.not_eq_true', Bool.not_eq_true, Bool.not_eq_true]
      tauto

theorem inert_of_isLetter {g : Glyph} (h : g.isLetter = true) : Inert g := by
  constructor <;>
  · intro hm
    simp only [opener, closer, List.mem_cons, List.not_mem_nil, or_false] at hm
    rcases hm with rfl | rfl | rfl | rfl <;> revert h <;> decide

theorem isBody_append_cons {g : Glyph} (hg : Inert g) (t u : Text) :
    IsBody (t ++ g :: u) ↔ isQuiet t = true ∧ IsBody u := by
  induction t with
  | nil =>
      have hc : closer.isPrefixOf (g :: (u ++ closer)) = false :=
        Text.isPrefixOf_append_cons hg.2 [] _
      have ho : opener.isPrefixOf (g :: (u ++ closer)) = false :=
        Text.isPrefixOf_append_cons hg.1 [] _
      rw [List.nil_append, IsBody, List.cons_append, bodyBefore?, hc, ho]
      simp [isQuiet, IsBody]
  | cons a t ih =>
      have hc := Text.isPrefixOf_append_cons hg.2 (a :: t) (u ++ closer)
      have ho := Text.isPrefixOf_append_cons hg.1 (a :: t) (u ++ closer)
      rw [List.cons_append] at hc ho
      rw [List.cons_append, IsBody, List.cons_append, List.append_assoc, List.cons_append,
        bodyBefore?, hc, ho, isQuiet]
      cases closer.isPrefixOf (a :: t) with
      | true => simp
      | false =>
          cases opener.isPrefixOf (a :: t) with
          | true => simp
          | false =>
              rw [IsBody, List.append_assoc, List.cons_append] at ih
              simpa using ih

/-- Between two texts any inert stretch keeps them from making up a delimiter. -/
theorem isBody_inert_iff {t w u : Text} (hne : w ≠ []) (hw : ∀ g ∈ w, Inert g) :
    IsBody (t ++ (w ++ u)) ↔ isQuiet t = true ∧ IsBody u := by
  induction w generalizing t with
  | nil => exact absurd rfl hne
  | cons g w ih =>
      rw [List.cons_append, isBody_append_cons (hw g List.mem_cons_self)]
      cases w with
      | nil => rfl
      | cons g' w =>
          have := ih (t := []) (by simp) fun a ha => hw a (List.mem_cons_of_mem _ ha)
          rw [List.nil_append] at this
          rw [this]
          simp [isQuiet]

/-- A text without angle brackets. -/
def IsBare (t : Text) : Prop := Glyph.char '<' ∉ t ∧ Glyph.char '>' ∉ t

instance (t : Text) : Decidable (IsBare t) := inferInstanceAs (Decidable (_ ∧ _))

theorem isBare_append_iff {t u : Text} : IsBare (t ++ u) ↔ IsBare t ∧ IsBare u := by
  simp only [IsBare, List.mem_append, not_or]
  exact and_and_and_comm

theorem IsBare.of_subset {t u : Text} (h : IsBare u) (hsub : t ⊆ u) : IsBare t :=
  ⟨fun hm => h.1 (hsub hm), fun hm => h.2 (hsub hm)⟩

/-- Without angle brackets there is no delimiter. -/
theorem IsBare.isQuiet {t : Text} (h : IsBare t) : isQuiet t = true :=
  isQuiet_iff.mpr ⟨fun hwithin => h.1 (hwithin.subset (by decide)),
    fun hwithin => h.2 (hwithin.subset (by decide))⟩

/-! ## Exchanging the keyword -/

/-- What a first word is made of. -/
structure IsWord (word : Text) : Prop where
  ne_nil : word ≠ []
  letters : ∀ g ∈ word, g.isLetter = true

/-- What may stand behind a first word: nothing, or a blank and more. -/
def EndsWord (rest : Text) : Prop := ∀ g, rest.head? = some g → g.isBlank = true

theorem EndsWord.not_isLetter {rest : Text} (h : EndsWord rest) {g : Glyph}
    (hg : rest.head? = some g) : g.isLetter = false := by
  cases hl : g.isLetter with
  | false => rfl
  | true =>
      have hblank := h g hg
      rw [Glyph.isBlank_eq_false_of_isLetter hl] at hblank
      cases hblank

namespace IsWord

variable {gap word : Text} (h : IsWord word) (hgap : gap.isBlank = true)

include h

theorem not_isBlank {g : Glyph} {tail : Text} (hg : (word ++ tail).head? = some g) :
    g.isBlank = false := by
  cases word with
  | nil => exact absurd rfl h.ne_nil
  | cons a word =>
      obtain rfl : a = g := Option.some.inj hg
      exact Glyph.isBlank_eq_false_of_isLetter (h.letters a List.mem_cons_self)

theorem takeWhile_isLetter {tail : Text} (htail : ∀ g, tail.head? = some g → g.isLetter = false) :
    (word ++ tail).takeWhile Glyph.isLetter = word :=
  Text.takeWhile_append_of_stop h.letters htail

theorem dropWhile_isLetter {tail : Text} (htail : ∀ g, tail.head? = some g → g.isLetter = false) :
    (word ++ tail).dropWhile Glyph.isLetter = tail :=
  Text.dropWhile_append_of_stop h.letters htail

include hgap

theorem takeWhile_isBlank (tail : Text) :
    (gap ++ (word ++ tail)).takeWhile Glyph.isBlank = gap :=
  Text.takeWhile_append_of_stop (List.all_eq_true.mp hgap) fun _ => h.not_isBlank

theorem dropBlanks (tail : Text) : Text.dropBlanks (gap ++ (word ++ tail)) = word ++ tail :=
  Text.dropWhile_append_of_stop (List.all_eq_true.mp hgap) fun _ => h.not_isBlank

end IsWord

/-- A body opens with blanks, a word of letters, and the end or a blank behind it. -/
theorem firstWord?_eq_some_iff {body word rest : Text} :
    firstWord? body = some (word, rest) ↔
      ∃ gap : Text, body = gap ++ (word ++ rest) ∧ gap.isBlank = true ∧ IsWord word ∧
        EndsWord rest := by
  constructor
  · intro h
    simp only [firstWord?] at h
    split at h
    · cases h
    · next hne =>
      obtain ⟨rfl, rfl, hblank⟩ : word = (Text.dropBlanks body).takeWhile Glyph.isLetter ∧
          rest = (Text.dropBlanks body).dropWhile Glyph.isLetter ∧ EndsWord rest := by
        split at h
        · next hrest =>
          obtain ⟨rfl, rfl⟩ := Prod.mk.inj (Option.some.inj h)
          exact ⟨rfl, hrest.symm, by simp [EndsWord]⟩
        · next g rest' hrest =>
          split at h
          · next hg =>
            obtain ⟨rfl, rfl⟩ := Prod.mk.inj (Option.some.inj h)
            exact ⟨rfl, rfl, by simpa [EndsWord, hrest] using hg⟩
          · cases h
      refine ⟨body.takeWhile Glyph.isBlank, ?_, List.all_takeWhile, ⟨by simpa using hne,
        List.all_eq_true.mp List.all_takeWhile⟩, hblank⟩
      rw [List.takeWhile_append_dropWhile]
      exact List.takeWhile_append_dropWhile.symm
  · rintro ⟨gap, rfl, hgap, hword, hrest⟩
    simp only [firstWord?, hword.dropBlanks hgap, hword.takeWhile_isLetter fun _ => hrest.not_isLetter,
      hword.dropWhile_isLetter fun _ => hrest.not_isLetter]
    rw [if_neg (by simpa using hword.ne_nil)]
    cases rest with
    | nil => rfl
    | cons g rest => simp only [hrest g rfl, if_true]

/-- A body with another word in the place of its first one. -/
def rename (keyword body : Text) : Text :=
  body.takeWhile Glyph.isBlank ++ (keyword ++ (Text.dropBlanks body).dropWhile Glyph.isLetter)

theorem rename_eq {gap word rest : Text} (hgap : gap.isBlank = true) (hword : IsWord word)
    (hrest : EndsWord rest) (keyword : Text) :
    rename keyword (gap ++ (word ++ rest)) = gap ++ (keyword ++ rest) := by
  rw [rename, hword.takeWhile_isBlank hgap, hword.dropBlanks hgap,
    hword.dropWhile_isLetter fun _ => hrest.not_isLetter]

theorem Kind.isWord_keyword (kind : Kind) : IsWord kind.keyword := by
  constructor <;> rcases kind with side | side | side | _ | _ <;> (try cases side) <;>
    decide +kernel

theorem IsWord.inert {word : Text} (h : IsWord word) : ∀ g ∈ word, Inert g :=
  fun g hg => inert_of_isLetter (h.letters g hg)

theorem IsWord.isBare {word : Text} (h : IsWord word) : IsBare word :=
  ⟨fun hm => absurd (h.letters _ hm) (by decide), fun hm => absurd (h.letters _ hm) (by decide)⟩

theorem isBare_rename {keyword body : Text} (hkeyword : IsBare keyword) (h : IsBare body) :
    IsBare (rename keyword body) := by
  rw [rename, isBare_append_iff, isBare_append_iff]
  refine ⟨h.of_subset (List.takeWhile_subset _), hkeyword, h.of_subset ?_⟩
  exact fun g hg => List.dropWhile_subset _ (List.dropWhile_subset _ hg)

theorem firstWord?_rename {body word rest : Text} (h : firstWord? body = some (word, rest))
    (kind : Kind) : firstWord? (rename kind.keyword body) = some (kind.keyword, rest) := by
  obtain ⟨gap, rfl, hgap, hword, hrest⟩ := firstWord?_eq_some_iff.mp h
  rw [rename_eq hgap hword hrest]
  exact firstWord?_eq_some_iff.mpr ⟨gap, rfl, hgap, kind.isWord_keyword, hrest⟩

theorem isBody_rename_iff {body word rest : Text} (h : firstWord? body = some (word, rest))
    (kind : Kind) : IsBody (rename kind.keyword body) ↔ IsBody body := by
  obtain ⟨gap, rfl, hgap, hword, hrest⟩ := firstWord?_eq_some_iff.mp h
  rw [rename_eq hgap hword hrest, isBody_inert_iff hword.ne_nil hword.inert,
    isBody_inert_iff kind.isWord_keyword.ne_nil kind.isWord_keyword.inert]

/-! ## What is asked of a marker -/

/-- What a marker of a kind asks of what follows its keyword, and the attributes it gets from it. -/
def Carries (kind : Kind) (rest : Text) (attributes : Attributes) : Prop :=
  match kind.nameKey? with
  | none => Text.isBlank rest = true ∧ attributes = []
  | some key => attributes = readAttributes rest ∧ (attributes.lookup key).isSome = true ∧
      (kind = .binding ∨ Text.isBlank (attributeForm.cutAll rest) = true)

theorem classify_eq_some_iff {body : Text} {kind : Kind} {attributes : Attributes} :
    classify body = some (kind, attributes) ↔ ∃ word rest, firstWord? body = some (word, rest) ∧
      Kind.ofKeyword? word = some kind ∧ Carries kind rest attributes := by
  have hkind : ∀ (rest : Text) (kind' : Kind), (match kind'.nameKey? with
      | none => if Text.isBlank rest then some (kind', []) else none
      | some key => if ((readAttributes rest).lookup key).isNone then none
        else if kind' = .binding || Text.isBlank (attributeForm.cutAll rest) then
          some (kind', readAttributes rest)
        else none) = some (kind, attributes) ↔ kind' = kind ∧ Carries kind rest attributes := by
    intro rest kind'
    rw [Carries]
    constructor
    · intro h
      split at h
      · next hkey =>
        split at h
        · next hblank =>
          obtain ⟨rfl, rfl⟩ := Prod.mk.inj (Option.some.inj h)
          rw [hkey]
          exact ⟨rfl, hblank, rfl⟩
        · cases h
      · next key hkey =>
        split at h
        · cases h
        · next hsome =>
          split at h
          · next hblank =>
            obtain ⟨rfl, rfl⟩ := Prod.mk.inj (Option.some.inj h)
            rw [hkey]
            exact ⟨rfl, rfl, by simpa using hsome, by simpa using hblank⟩
          · cases h
    · rintro ⟨rfl, h⟩
      cases hkey : kind'.nameKey? with
      | none =>
          rw [hkey] at h
          obtain ⟨hblank, rfl⟩ := h
          exact if_pos hblank
      | some key =>
          rw [hkey] at h
          obtain ⟨rfl, hsome, hblank⟩ := h
          dsimp only
          rw [if_neg (by simpa using hsome), if_pos (by simpa using hblank)]
  rw [classify, Option.bind_eq_bind, Option.bind_eq_some_iff]
  constructor
  · rintro ⟨⟨word, rest⟩, hfirst, h⟩
    obtain ⟨kind', hof, h⟩ := Option.bind_eq_some_iff.mp h
    obtain ⟨rfl, hcarries⟩ := (hkind rest kind').mp h
    exact ⟨word, rest, hfirst, hof, hcarries⟩
  · rintro ⟨word, rest, hfirst, hof, hcarries⟩
    exact ⟨(word, rest), hfirst, Option.bind_eq_some_iff.mpr
      ⟨kind, hof, (hkind rest kind).mpr ⟨rfl, hcarries⟩⟩⟩

theorem exists_firstWord?_of_kind? {body : Text} {kind : Kind} (h : kind? body = some kind) :
    ∃ word rest, firstWord? body = some (word, rest) ∧ Kind.ofKeyword? word = some kind := by
  obtain ⟨attributes, hclass⟩ := kind?_eq_some_iff.mp h
  obtain ⟨word, rest, hfirst, hof, -⟩ := classify_eq_some_iff.mp hclass
  exact ⟨word, rest, hfirst, hof⟩

/-- Only the keyword tells kinds apart that are named by the same attribute. -/
theorem classify_rename {body : Text} {kind kind' : Kind} {attributes : Attributes}
    (h : classify body = some (kind, attributes)) (hkey : kind'.nameKey? = kind.nameKey?)
    (hbinding : kind' = .binding ↔ kind = .binding) :
    classify (rename kind'.keyword body) = some (kind', attributes) := by
  obtain ⟨word, rest, hfirst, -, hcarries⟩ := classify_eq_some_iff.mp h
  refine classify_eq_some_iff.mpr ⟨_, rest, firstWord?_rename hfirst kind',
    Kind.ofKeyword?_keyword kind', ?_⟩
  simpa only [Carries, hkey, hbinding] using hcarries

end Marker

end Stencil
