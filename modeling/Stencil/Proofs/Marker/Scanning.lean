import Stencil.Proofs.Marker.Kinds
import Stencil.Proofs.Text.Matches

/-!
# Which comments the scan finds

The rule for a comment, said of offsets (`Delimits`): an opener stands at `i`, the first closer
behind it stands at `j`, and no other opener stands between. `scan_delimited` says that the tokens
of a text are those of the comments by this rule whose bodies are markers, in order, and that no
two of them share a glyph.

The scan tries every offset and never skips what it has read. That it need not is
`comments_eq_findAll`: a search that goes on behind each comment finds the same ones, because no
opener stands inside a comment.
-/

namespace Stencil

namespace Text

/-- `mark` stands at offset `n` of a text. -/
def OccursAt (mark t : Text) (n : Nat) : Prop := mark <+: t.drop n

instance (mark t : Text) (n : Nat) : Decidable (OccursAt mark t n) :=
  inferInstanceAs (Decidable (mark <+: t.drop n))

theorem occursAt_drop {mark t : Text} {m n : Nat} :
    OccursAt mark (t.drop m) n ↔ OccursAt mark t (m + n) := by
  rw [OccursAt, OccursAt, List.drop_drop]

@[simp] theorem occursAt_cons_succ {mark t : Text} {g : Glyph} {n : Nat} :
    OccursAt mark (g :: t) (n + 1) ↔ OccursAt mark t n := Iff.rfl

theorem occursAt_zero {mark t : Text} : OccursAt mark t 0 ↔ mark.isPrefixOf t = true :=
  List.isPrefixOf_iff_prefix.symm

theorem OccursAt.getElem? {mark t : Text} {n k : Nat} (h : OccursAt mark t n)
    (hk : k < mark.length) : t[n + k]? = mark[k]? := by
  obtain ⟨rest, hrest⟩ := h
  rw [← List.getElem?_drop, ← hrest, List.getElem?_append_left hk]

theorem slice_append_slice {i j k : Nat} (t : Text) (hij : i ≤ j) (hjk : j ≤ k) :
    t.slice i j ++ t.slice j k = t.slice i k := by
  have hdrop : t.drop j = (t.drop i).drop (j - i) := by
    rw [List.drop_drop, Nat.add_sub_cancel' hij]
  rw [slice, slice, slice, hdrop, ← List.take_add]
  congr 1
  omega

theorem OccursAt.slice {mark t : Text} {n : Nat} (h : OccursAt mark t n) :
    t.slice n (n + mark.length) = mark := by
  rw [Text.slice, Nat.add_sub_cancel_left]
  exact (List.prefix_iff_eq_take.mp h).symm

theorem OccursAt.le_length {mark t : Text} {n : Nat} (h : OccursAt mark t n) (hmark : mark ≠ []) :
    n + mark.length ≤ t.length := by
  have hlen := List.IsPrefix.length_le h
  have hpos := List.length_pos_iff.mpr hmark
  rw [List.length_drop] at hlen
  omega

end Text

namespace Marker

/-- The comment of a text whose opener stands at `i` and whose closer stands at `j`. -/
structure Delimits (t : Text) (i j : Nat) : Prop where
  opens : Text.OccursAt opener t i
  behind : i + 4 ≤ j
  closes : Text.OccursAt closer t j
  least : ∀ k, i + 4 ≤ k → k < j → ¬ Text.OccursAt closer t k
  unopened : ∀ k, i + 4 ≤ k → k < j → ¬ Text.OccursAt opener t k

instance (t : Text) (i j : Nat) : Decidable (Delimits t i j) :=
  decidable_of_iff (Text.OccursAt opener t i ∧ i + 4 ≤ j ∧ Text.OccursAt closer t j ∧
      (∀ k, i + 4 ≤ k → k < j → ¬ Text.OccursAt closer t k) ∧
      ∀ k, i + 4 ≤ k → k < j → ¬ Text.OccursAt opener t k)
    ⟨fun ⟨h₁, h₂, h₃, h₄, h₅⟩ => ⟨h₁, h₂, h₃, h₄, h₅⟩,
      fun ⟨h₁, h₂, h₃, h₄, h₅⟩ => ⟨h₁, h₂, h₃, h₄, h₅⟩⟩

/-- What the token of the comment at `i` with its closer at `j` says. -/
structure Reads (t : Text) (i j : Nat) (token : Token) : Prop where
  marker : classify (t.slice (i + 4) j) = some (token.kind, token.attributes)
  name : token.name = (token.kind.nameKey?.bind token.attribute?).getD []
  start : token.start = i
  stop : token.stop = j + 3
  raw : token.raw = t.slice i (j + 3)
  span : token.span = ⟨Position.ofOffset (Position.lineStarts t) i,
    Position.ofOffset (Position.lineStarts t) (j + 3)⟩

/-! ## One comment -/

/-- The body ends at the first place where a closer stands, if no opener stands before it. -/
theorem bodyBefore?_eq_some_iff_least {t body : Text} :
    bodyBefore? t = some body ↔ body <+: t ∧ Text.OccursAt closer t body.length ∧
      ∀ k < body.length, ¬ Text.OccursAt closer t k ∧ ¬ Text.OccursAt opener t k := by
  induction t generalizing body with
  | nil =>
      have hnone : ¬ Text.OccursAt closer [] body.length := by simp [Text.OccursAt, closer]
      simp [bodyBefore?, hnone]
  | cons g t ih =>
      rw [bodyBefore?]
      cases body with
      | nil =>
          simp only [List.nil_prefix, List.length_nil, true_and, Nat.not_lt_zero, false_implies,
            implies_true, and_true, Text.occursAt_zero]
          split <;> simp_all
      | cons g' body =>
          have hzero : (∀ k < (g' :: body).length, ¬ Text.OccursAt closer (g :: t) k ∧
              ¬ Text.OccursAt opener (g :: t) k) ↔
                (¬ closer.isPrefixOf (g :: t) ∧ ¬ opener.isPrefixOf (g :: t)) ∧
                  ∀ k < body.length, ¬ Text.OccursAt closer t k ∧ ¬ Text.OccursAt opener t k := by
            simp only [List.length_cons, Nat.forall_lt_succ_left, Text.occursAt_zero,
              Text.occursAt_cons_succ]
          rw [hzero, List.length_cons, Text.occursAt_cons_succ, List.cons_prefix_cons]
          split
          · next hc => simp [hc]
          · next hc =>
            split
            · next ho => simp [ho]
            · next ho =>
              simp only [Option.map_eq_some_iff, List.cons.injEq, exists_eq_right_right, ih, hc, ho,
                Bool.false_eq_true, not_false_eq_true, true_and]
              constructor
              · rintro ⟨⟨hhead, hrest⟩, rfl⟩
                exact ⟨⟨rfl, hhead⟩, hrest⟩
              · rintro ⟨⟨rfl, hhead⟩, hrest⟩
                exact ⟨⟨hhead, hrest⟩, rfl⟩

theorem commentAt?_drop {t body : Text} {i : Nat} :
    commentAt? (t.drop i) = some body ↔
      Text.OccursAt opener t i ∧ bodyBefore? (t.drop (i + 4)) = some body := by
  rw [commentAt?, Option.bind_eq_some_iff]
  simp only [Text.dropHead?_eq_some_iff]
  have hdrop : ∀ inner, t.drop i = opener ++ inner → t.drop (i + 4) = inner := fun inner h => by
    rw [← List.drop_drop, h]
    rfl
  constructor
  · rintro ⟨inner, hinner, hbody⟩
    exact ⟨⟨inner, hinner.symm⟩, by rw [hdrop inner hinner, hbody]⟩
  · rintro ⟨⟨inner, hinner⟩, hbody⟩
    exact ⟨inner, hinner.symm, by rw [← hdrop inner hinner.symm, hbody]⟩

/-- A comment is read where the rule says that one stands, and its body is what it delimits. -/
theorem commentAt?_drop_iff {t body : Text} {i : Nat} :
    commentAt? (t.drop i) = some body ↔ ∃ j, Delimits t i j ∧ body = t.slice (i + 4) j := by
  rw [commentAt?_drop, bodyBefore?_eq_some_iff_least]
  simp only [Text.occursAt_drop]
  constructor
  · rintro ⟨hopens, hhead, hcloses, hbefore⟩
    have hk : ∀ k, i + 4 ≤ k → k < i + 4 + body.length →
        ¬ Text.OccursAt closer t k ∧ ¬ Text.OccursAt opener t k := fun k hle hlt => by
      obtain ⟨n, rfl⟩ := Nat.exists_eq_add_of_le hle
      exact hbefore n (by omega)
    refine ⟨i + 4 + body.length, ⟨hopens, by omega, hcloses, fun k hle hlt => (hk k hle hlt).1,
      fun k hle hlt => (hk k hle hlt).2⟩, ?_⟩
    rw [Text.slice, Nat.add_sub_cancel_left]
    exact List.prefix_iff_eq_take.mp hhead
  · rintro ⟨j, h, rfl⟩
    have hlength := h.closes.le_length (by decide)
    have hbehind := h.behind
    have hslice : (t.slice (i + 4) j).length = j - (i + 4) := by
      rw [Text.slice, List.length_take, List.length_drop]
      omega
    rw [hslice, Nat.add_sub_cancel' h.behind]
    exact ⟨h.opens, List.take_prefix _ _, h.closes, fun k hk =>
      ⟨h.least (i + 4 + k) (by omega) (by omega), h.unopened (i + 4 + k) (by omega) (by omega)⟩⟩

/-- No comment begins before the end of one that begins earlier. -/
theorem Delimits.le_of_lt {t : Text} {i j i' j' : Nat} (h : Delimits t i j) (h' : Delimits t i' j')
    (hlt : i < i') : j + 3 ≤ i' := by
  have hstart : t[i' + 0]? = some (.char '<') := h'.opens.getElem? (by decide)
  have hne : ∀ {mark : Text} {n k : Nat}, Text.OccursAt mark t n → n + k = i' →
      mark[k]? ≠ some (.char '<') → k < mark.length → False := by
    rintro mark n k hmark rfl hglyph hk
    rw [Nat.add_zero, hmark.getElem? hk] at hstart
    exact hglyph hstart
  by_contra hover
  -- the glyph at `i'` would be one of the opener, of the body, or of the closer
  by_cases hhead : i' < i + 4
  · obtain ⟨k, rfl⟩ := Nat.exists_eq_add_of_le hlt.le
    have hk : k = 1 ∨ k = 2 ∨ k = 3 := by omega
    rcases hk with rfl | rfl | rfl <;> exact hne h.opens rfl (by decide) (by decide)
  · by_cases hbody : i' < j
    · exact h.unopened i' (by omega) hbody h'.opens
    · obtain ⟨k, rfl⟩ := Nat.exists_eq_add_of_le (Nat.le_of_not_lt hbody)
      have hk : k = 0 ∨ k = 1 ∨ k = 2 := by omega
      rcases hk with rfl | rfl | rfl <;> exact hne h.closes rfl (by decide) (by decide)

/-! ## All comments -/

theorem mem_commentsFrom_iff {p : Nat} {t : Text} {c : Comment} :
    c ∈ commentsFrom p t ↔ ∃ i, c.start = p + i ∧ commentAt? (t.drop i) = some c.body := by
  induction t generalizing p with
  | nil => simp [commentsFrom, commentAt?, Text.dropHead?, opener, List.isPrefixOf?]
  | cons g t ih =>
      have hlater : c ∈ commentsFrom (p + 1) t ↔
          ∃ i, c.start = p + (i + 1) ∧ commentAt? (t.drop i) = some c.body := by
        rw [ih]
        exact exists_congr fun i => by rw [Nat.add_right_comm, Nat.add_assoc]
      have hhere : c ∈ commentsFrom p (g :: t) ↔
          (c.start = p ∧ commentAt? (g :: t) = some c.body) ∨ c ∈ commentsFrom (p + 1) t := by
        rw [commentsFrom]
        split
        · next body hat =>
          rw [List.mem_cons, hat, Option.some.injEq]
          exact or_congr_left ⟨fun h => h ▸ ⟨rfl, rfl⟩, fun h => by
            cases c
            simp_all⟩
        · next hat => simp [hat]
      rw [hhere, hlater]
      constructor
      · rintro (⟨hstart, hat⟩ | ⟨i, hstart, hat⟩)
        · exact ⟨0, hstart, hat⟩
        · exact ⟨i + 1, hstart, hat⟩
      · rintro ⟨_ | i, hstart, hat⟩
        · exact .inl ⟨hstart, hat⟩
        · exact .inr ⟨i, hstart, hat⟩

/-- The comments of a text are those of the rule. -/
theorem mem_comments_iff {t : Text} {c : Comment} :
    c ∈ comments t ↔ ∃ j, Delimits t c.start j ∧ c.body = t.slice (c.start + 4) j := by
  rw [comments, mem_commentsFrom_iff]
  simp only [Nat.zero_add, exists_eq_left', commentAt?_drop_iff]

/-- A comment, read at the head of a text. -/
def commentForm : Form Text := fun _ t =>
  (commentAt? t).map fun body => (body, t.drop (wrap body).length)

theorem commentsFrom_eq_findAll (p : Nat) (t : Text) : commentsFrom p t =
    (commentForm.findAll t).map fun found => ⟨p + found.start, found.value⟩ := by
  have hblind : commentForm.IsBlind := fun _ _ _ => rfl
  induction hn : t.length using Nat.strongRecOn generalizing p t with
  | ind n ih =>
      subst hn
      cases t with
      | nil => rfl
      | cons g t =>
          cases hat : commentAt? (g :: t) with
          | none =>
              have hread : commentForm none (g :: t) = none := by rw [commentForm, hat]; rfl
              rw [commentsFrom, hat, Form.findAll_cons hblind hread, List.map_map,
                ih t.length (Nat.lt_succ_self _) (p + 1) t rfl]
              simp [Found.shift, Found.move, Nat.add_assoc]
          | some body =>
              obtain ⟨hbody, rest, heq⟩ := commentAt?_eq_some_iff.mp hat
              have hread : commentForm none (wrap body ++ rest) = some (body, rest) := by
                rw [commentForm, commentAt?_eq_some_iff.mpr ⟨hbody, rest, rfl⟩, Option.map_some,
                  List.drop_left]
              have hlt : rest.length < (g :: t).length := by
                rw [heq, List.length_append, length_wrap]
                omega
              rw [heq, commentsFrom_wrap p hbody, Form.findAll_read hblind (by simp [wrap, opener])
                hread, ih rest.length hlt _ rest rfl]
              simp [Found.shift, Found.move, Nat.add_assoc]

/-- Going on behind each comment finds the same comments. -/
theorem comments_eq_findAll (t : Text) :
    comments t = (commentForm.findAll t).map fun found => ⟨found.start, found.value⟩ := by
  rw [comments, commentsFrom_eq_findAll]
  simp only [Nat.zero_add]

/-- The token made of a comment of the rule. -/
theorem Delimits.tokenOf?_eq_some_iff {t : Text} {i j : Nat} (h : Delimits t i j) {token : Token} :
    tokenOf? (Position.lineStarts t) ⟨i, t.slice (i + 4) j⟩ = some token ↔ Reads t i j token := by
  have hstop : (Comment.mk i (t.slice (i + 4) j)).stop = j + 3 := by
    have hlength := h.closes.le_length (by decide)
    have hbehind := h.behind
    simp only [Comment.stop, Text.slice, List.length_take, List.length_drop, opener, closer,
      List.length_cons, List.length_nil] at hlength ⊢
    omega
  have hraw : (Comment.mk i (t.slice (i + 4) j)).raw = t.slice i (j + 3) := by
    have hopener : t.slice i (i + 4) = opener := h.opens.slice
    have hcloser : t.slice j (j + 3) = closer := h.closes.slice
    have hbehind := h.behind
    rw [Comment.raw, ← Text.slice_append_slice t (by omega : i ≤ j) (by omega : j ≤ j + 3),
      ← Text.slice_append_slice t (by omega : i ≤ i + 4) h.behind, hopener, hcloser]
  rw [tokenOf?, Option.map_eq_some_iff]
  constructor
  · rintro ⟨⟨kind, attributes⟩, hclass, rfl⟩
    exact ⟨hclass, rfl, rfl, hstop, hraw, by rw [← hstop]⟩
  · intro hreads
    refine ⟨(token.kind, token.attributes), hreads.marker, ?_⟩
    obtain ⟨-, hname, hstart, htokenStop, htokenRaw, hspan⟩ := hreads
    dsimp only
    rw [hraw, ← htokenRaw, hstop, ← hspan, ← htokenStop, ← hstart]
    cases token
    exact congrArg (Token.mk _ · _ _ _ _ _) hname.symm

/-- The tokens of a text are those of its comments that are markers, from left to right, and no two
of them share a glyph. -/
theorem scan_delimited (t : Text) :
    (∀ token, token ∈ scan t ↔ ∃ i j, Delimits t i j ∧ Reads t i j token) ∧
      (∀ i j, Delimits t i j → (classify (t.slice (i + 4) j)).isSome →
        ∃ token ∈ scan t, Reads t i j token) ∧
      (scan t).Pairwise fun token token' =>
        token.start < token'.start ∧ token.stop ≤ token'.start := by
  have hmem : ∀ token, token ∈ scan t ↔ ∃ i j, Delimits t i j ∧ Reads t i j token := by
    intro token
    rw [scan, List.mem_filterMap]
    constructor
    · rintro ⟨c, hc, htoken⟩
      obtain ⟨j, hdelimits, hbody⟩ := mem_comments_iff.mp hc
      refine ⟨c.start, j, hdelimits, hdelimits.tokenOf?_eq_some_iff.mp ?_⟩
      rw [← hbody, htoken]
    · rintro ⟨i, j, hdelimits, hreads⟩
      exact ⟨⟨i, t.slice (i + 4) j⟩, mem_comments_iff.mpr ⟨j, hdelimits, rfl⟩,
        hdelimits.tokenOf?_eq_some_iff.mpr hreads⟩
  refine ⟨hmem, fun i j hdelimits hmarker => ?_, ?_⟩
  · obtain ⟨token, htoken⟩ := Option.isSome_iff_exists.mp
      ((Option.isSome_map ..).trans hmarker :
        (tokenOf? (Position.lineStarts t) ⟨i, t.slice (i + 4) j⟩).isSome = true)
    have hreads := hdelimits.tokenOf?_eq_some_iff.mp htoken
    exact ⟨token, (hmem token).mpr ⟨i, j, hdelimits, hreads⟩, hreads⟩
  · refine (pairwise_tokensFrom (Position.lineStarts t) 0 t).imp_of_mem
      fun {token token'} htoken htoken' hlt => ⟨hlt, ?_⟩
    obtain ⟨i, j, hdelimits, hreads⟩ := (hmem token).mp htoken
    obtain ⟨i', j', hdelimits', hreads'⟩ := (hmem token').mp htoken'
    rw [hreads.start, hreads'.start] at hlt
    rw [hreads.stop, hreads'.start]
    exact hdelimits.le_of_lt hdelimits' hlt

/-- An opener that is never closed. -/
def strayOpener : Text := "<!-- a <!-- InstanceEnd -->"

/-- It does not hide the comment behind it. -/
theorem scan_strayOpener : ∃ token ∈ scan strayOpener, Reads strayOpener 7 24 token :=
  (scan_delimited strayOpener).2.1 7 24 (by decide +kernel) (by decide +kernel)

end Marker

end Stencil
