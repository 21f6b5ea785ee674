import Stencil.Discovery
import Stencil.Proofs.Text.Forms
import Stencil.Proofs.Text.Order

/-!
# What a pattern matches

A pattern is read into items and the items are tried on all tails of a path at once. `Matches` says
what this comes to, as a relation on the text of the pattern itself, and `fits_iff` that the matcher
decides it. A pattern behind `**/` is thereby one that matches behind any slash, or from the
beginning (`accepts_doubleStar_iff`), and so one that goes on matching in a folder further down.
-/

namespace Stencil.Glob

/-! ## The meaning of patterns -/

/-- The insides of closed brackets: a sign perhaps, a first member that may be any glyph, and no
closing bracket behind it. -/
inductive IsInside : Text → Prop
  | plain (first : Glyph) (members : Text) : first ≠ .char '!' → .char ']' ∉ members →
      IsInside (first :: members)
  | negated (first : Glyph) (members : Text) : .char ']' ∉ members →
      IsInside (.char '!' :: first :: members)

/-- A bracket that is never closed, given by what follows it. -/
def IsUnclosed (t : Text) : Prop :=
  ∀ inside after, IsInside inside → t ≠ inside ++ .char ']' :: after

/-- Whether a whole text is what a pattern asks for. -/
inductive Matches : (pattern path : Text) → Prop
  | done : Matches [] []
  | star {q t : Text} (skipped : Text) : Matches q t → Matches (.char '*' :: q) (skipped ++ t)
  | any {q t : Text} (g : Glyph) : Matches q t → Matches (.char '?' :: q) (g :: t)
  | bracket {inside q t : Text} (g : Glyph) : IsInside inside →
      (bracketItem inside).admits g = true → Matches q t →
      Matches (.char '[' :: (inside ++ .char ']' :: q)) (g :: t)
  | literal {q t : Text} (g : Glyph) : g ≠ .char '*' → g ≠ .char '?' →
      (g = .char '[' → IsUnclosed q) → Matches q t → Matches (g :: q) (g :: t)

/-! ## Items on tails -/

variable {t p q inside after : Text} {item : Item} {items : List Item} {g : Glyph}

theorem tail_someTail (passes : List Bool) : (someTail passes).tail = someTail passes.tail := by
  cases passes <;> rfl

theorem matchTails_cons (items : List Item) (g : Glyph) (t : Text) :
    matchTails items (g :: t) = matchItems items (g :: t) :: matchTails items t := by
  have htail : (matchTails items (g :: t)).tail = matchTails items t := by
    induction items with
    | nil => rfl
    | cons item items ih =>
        cases item with
        | star => rw [matchTails, tail_someTail, ih, matchTails]
        | _ => simp only [matchTails, stepTails, ih, List.tail_cons]
  have hne : matchTails items (g :: t) ≠ [] := by
    rw [← List.length_pos_iff, length_matchTails]
    exact Nat.succ_pos _
  obtain ⟨passes, rest, heq⟩ := List.exists_cons_of_ne_nil hne
  rw [matchItems, ← htail, heq]
  rfl

theorem matchTails_nil (items : List Item) : matchTails items [] = [matchItems items []] := by
  obtain ⟨passes, heq⟩ := List.length_eq_one_iff.mp (length_matchTails items [])
  rw [matchItems, heq]
  rfl

theorem matchItems_nil : matchItems [] t = true ↔ t = [] := by
  cases t <;> simp [matchItems, matchTails, List.replicate_succ]

/-- A star stands for any text. -/
theorem matchItems_star : matchItems (.star :: items) t = true ↔
    ∃ u v, t = u ++ v ∧ matchItems items v = true := by
  induction t with
  | nil =>
      rw [matchItems, matchTails, matchTails_nil]
      simp [someTail]
  | cons g t ih =>
      have hstep : matchItems (.star :: items) (g :: t) =
          (matchItems items (g :: t) || matchItems (.star :: items) t) := by
        rw [matchItems, matchTails, matchTails_cons]
        rfl
      rw [hstep, Bool.or_eq_true, ih]
      constructor
      · rintro (h | ⟨u, v, rfl, h⟩)
        · exact ⟨[], g :: t, rfl, h⟩
        · exact ⟨g :: u, v, rfl, h⟩
      · rintro ⟨_ | ⟨a, u⟩, v, heq, h⟩
        · exact Or.inl (heq ▸ h)
        · exact Or.inr ⟨u, v, (List.cons.inj heq).2, h⟩

/-- Every other item stands for one glyph. -/
theorem matchItems_cons (hitem : item ≠ .star) : matchItems (item :: items) t = true ↔
    ∃ g v, t = g :: v ∧ item.admits g = true ∧ matchItems items v = true := by
  have hstep : matchTails (item :: items) t = stepTails item t (matchTails items t) := by
    cases item with
    | star => exact absurd rfl hitem
    | _ => rfl
  rw [matchItems, hstep]
  cases t with
  | nil => simp [stepTails]
  | cons g t =>
      rw [matchTails_cons, stepTails, List.tail_cons, List.headD_cons, Bool.and_eq_true]
      constructor
      · rintro ⟨hadmits, h⟩
        exact ⟨g, t, rfl, hadmits, h⟩
      · rintro ⟨_, _, heq, hadmits, h⟩
        obtain ⟨rfl, rfl⟩ := List.cons.inj heq
        exact ⟨hadmits, h⟩

/-! ## Brackets -/

theorem chunksFrom_of_no_hyphen (h : .char '-' ∉ t) (wait : Nat) : chunksFrom wait t = [t] := by
  induction t generalizing wait with
  | nil => cases wait <;> rfl
  | cons g t ih =>
      rw [List.mem_cons, not_or] at h
      obtain ⟨hg, ht⟩ := h
      cases wait with
      | zero => rw [chunksFrom, if_neg (Ne.symm hg), ih ht]; rfl
      | succ wait => rw [chunksFrom, ih ht]; rfl

theorem chunks_of_no_hyphen (h : .char '-' ∉ inside) : chunks inside = [inside] := by
  rw [chunks, chunksFrom_of_no_hyphen h]
  cases inside <;> rfl

theorem any_spansOf (members : Text) (g : Glyph) : ((spansOf [members]).any fun span =>
    span.low.code ≤ g.code && g.code ≤ span.high.code) = true ↔ g ∈ members := by
  rw [spansOf, List.any_map, List.any_eq_true]
  constructor
  · rintro ⟨member, hmember, hcode⟩
    simp only [Function.comp_apply, Bool.and_eq_true, decide_eq_true_eq] at hcode
    exact Glyph.code_injective (Nat.le_antisymm hcode.1 hcode.2) ▸ hmember
  · intro hg
    exact ⟨g, hg, by simp⟩

/-- Without hyphens, a bracket asks for one of its members. -/
theorem admits_plain_iff {first : Glyph} {members : Text} (hfirst : first ≠ .char '!')
    (hyphen : .char '-' ∉ first :: members) :
    (bracketItem (first :: members)).admits g = true ↔ g ∈ first :: members := by
  have hitem : bracketItem (first :: members) = .among false (spansOf [first :: members]) := by
    rw [bracketItem, chunks_of_no_hyphen hyphen, dropBackward, dropBackward]
    split
    · next heq => exact absurd (List.cons.inj (List.cons.inj heq).1).1 hfirst
    · rfl
  rw [hitem, Item.admits, Bool.false_bne, any_spansOf]

/-- Without hyphens, a negated bracket asks for any glyph but its members. -/
theorem admits_negated_iff {first : Glyph} {members : Text}
    (hyphen : .char '-' ∉ first :: members) :
    (bracketItem (.char '!' :: first :: members)).admits g = true ↔ g ∉ first :: members := by
  have hsign : .char '-' ∉ .char '!' :: first :: members :=
    fun h => hyphen ((List.mem_cons.mp h).resolve_left (by decide))
  have hitem : bracketItem (.char '!' :: first :: members) =
      .among true (spansOf [first :: members]) := by
    rw [bracketItem, chunks_of_no_hyphen hsign]
    rfl
  rw [hitem, Item.admits, Bool.true_bne, Bool.not_eq_true', ← any_spansOf, Bool.not_eq_true]

/-! ## Patterns as items -/

/-- Behind the sign, the first member is a member whatever glyph it is. -/
theorem bracket?_members (sign : Text) (g : Glyph) (t : Text) :
    (let (first, rest) := match g :: t with
      | .char ']' :: rest => ([Glyph.char ']'], rest)
      | _ => ([], g :: t)
    (Text.upTo? (.char ']') rest).map fun (inside, after) => (sign ++ first ++ inside, after)) =
      (Text.upTo? (.char ']') t).map fun (members, after) => (sign ++ g :: members, after) := by
  by_cases hclose : g = .char ']'
  · rw [hclose]
    simp
  · split
    next heq =>
      split at heq
      · next h => exact absurd (List.cons.inj h).1 hclose
      · obtain ⟨rfl, rfl⟩ := Prod.mk.inj heq
        rw [Text.upTo?, if_neg hclose, Option.map_map]
        simp [Function.comp_def]

theorem bracket?_plain (hg : g ≠ .char '!') (t : Text) : bracket? (g :: t) =
    (Text.upTo? (.char ']') t).map fun (members, after) => (g :: members, after) := by
  unfold bracket?
  split
  next heq =>
    split at heq
    · next h => exact absurd (List.cons.inj h).1 hg
    · obtain ⟨rfl, rfl⟩ := Prod.mk.inj heq
      exact bracket?_members [] g t

theorem bracket?_negated (g : Glyph) (t : Text) : bracket? (.char '!' :: g :: t) =
    (Text.upTo? (.char ']') t).map fun (members, after) => (.char '!' :: g :: members, after) :=
  bracket?_members [.char '!'] g t

/-- A closed bracket is cut where its inside ends. -/
theorem bracket?_eq_some_iff :
    bracket? t = some (inside, after) ↔ IsInside inside ∧ t = inside ++ .char ']' :: after := by
  constructor
  · intro h
    cases t with
    | nil => cases h
    | cons g t =>
        by_cases hg : g = .char '!'
        · subst hg
          cases t with
          | nil => cases h
          | cons first t =>
              rw [bracket?_negated, Option.map_eq_some_iff] at h
              obtain ⟨⟨members, _⟩, hcut, heq⟩ := h
              obtain ⟨rfl, rfl⟩ := Prod.mk.inj heq
              obtain ⟨rfl, hnot⟩ := Text.upTo?_eq_some_iff.mp hcut
              exact ⟨.negated first members hnot, rfl⟩
        · rw [bracket?_plain hg, Option.map_eq_some_iff] at h
          obtain ⟨⟨members, _⟩, hcut, heq⟩ := h
          obtain ⟨rfl, rfl⟩ := Prod.mk.inj heq
          obtain ⟨rfl, hnot⟩ := Text.upTo?_eq_some_iff.mp hcut
          exact ⟨.plain g members hg hnot, rfl⟩
  · rintro ⟨hinside, rfl⟩
    cases hinside with
    | plain first members hfirst hnot =>
        rw [List.cons_append, bracket?_plain hfirst, Text.upTo?_eq_some_iff.mpr ⟨rfl, hnot⟩]
        rfl
    | negated first members hnot =>
        rw [List.cons_append, List.cons_append, bracket?_negated,
          Text.upTo?_eq_some_iff.mpr ⟨rfl, hnot⟩]
        rfl

theorem bracket?_eq_none_iff : bracket? t = none ↔ IsUnclosed t := by
  constructor
  · intro h inside after hinside heq
    rw [bracket?_eq_some_iff.mpr ⟨hinside, heq⟩] at h
    cases h
  · intro h
    cases hcut : bracket? t with
    | none => rfl
    | some cut =>
        obtain ⟨hinside, heq⟩ := bracket?_eq_some_iff.mp hcut
        exact absurd heq (h _ _ hinside)

theorem itemsFrom_eq (skip : Nat) (t : Text) : itemsFrom skip t = Glob.items (t.drop skip) := by
  induction t generalizing skip with
  | nil => cases skip <;> rfl
  | cons g t ih =>
      cases skip with
      | zero => rfl
      | succ skip => exact ih skip

/-- A star in front of a pattern stands for any text, also where the pattern begins with a star. -/
theorem fits_star : fits (.char '*' :: q) t = true ↔
    ∃ u v, t = u ++ v ∧ fits q v = true := by
  have hitems : ∃ rest, Glob.items (.char '*' :: q) = .star :: rest ∧
      (Glob.items q = rest ∨ Glob.items q = .star :: rest) := by
    rw [Glob.items, itemsFrom, if_pos rfl]
    split
    · next rest heq => exact ⟨rest, rfl, Or.inr heq⟩
    · exact ⟨_, rfl, Or.inl rfl⟩
  obtain ⟨rest, hfirst, hq | hq⟩ := hitems
  · rw [fits, hfirst, matchItems_star, ← hq]
    rfl
  · -- stars in a row are one star, so the rest of the pattern skips what it wants to as well
    rw [fits, hfirst, matchItems_star]
    constructor
    · rintro ⟨u, v, rfl, h⟩
      exact ⟨u, v, rfl, by rw [fits, hq, matchItems_star]; exact ⟨[], v, rfl, h⟩⟩
    · rintro ⟨u, v, rfl, h⟩
      rw [fits, hq, matchItems_star] at h
      obtain ⟨u', v', rfl, h⟩ := h
      exact ⟨u ++ u', v', (List.append_assoc ..).symm, h⟩

theorem bracketItem_ne_star (inside : Text) : bracketItem inside ≠ .star := by
  rw [bracketItem]
  split
  · split <;> exact Item.noConfusion
  · exact Item.noConfusion

theorem fits_any : fits (.char '?' :: q) t = true ↔ ∃ g v, t = g :: v ∧ fits q v = true := by
  have hitems : Glob.items (.char '?' :: q) = .any :: Glob.items q := rfl
  rw [fits, hitems, matchItems_cons Item.noConfusion]
  simp [Item.admits, fits]

theorem fits_bracket (hinside : IsInside inside) :
    fits (.char '[' :: (inside ++ .char ']' :: q)) t = true ↔
      ∃ g v, t = g :: v ∧ (bracketItem inside).admits g = true ∧ fits q v = true := by
  have hcut : bracket? (inside ++ .char ']' :: q) = some (inside, q) :=
    bracket?_eq_some_iff.mpr ⟨hinside, rfl⟩
  have hitems : Glob.items (.char '[' :: (inside ++ .char ']' :: q)) =
      bracketItem inside :: Glob.items q := by
    rw [Glob.items, itemsFrom, if_neg (by decide), if_neg (by decide), if_pos rfl, hcut]
    dsimp only
    rw [itemsFrom_eq]
    have hsplit : inside ++ .char ']' :: q = (inside ++ [.char ']']) ++ q := List.append_cons ..
    rw [hsplit, List.length_append, Nat.add_sub_cancel, List.drop_left]
  rw [fits, hitems, matchItems_cons (bracketItem_ne_star inside)]
  rfl

theorem fits_literal (hstar : g ≠ .char '*') (hany : g ≠ .char '?')
    (hopen : g = .char '[' → IsUnclosed q) :
    fits (g :: q) t = true ↔ ∃ v, t = g :: v ∧ fits q v = true := by
  have hitems : Glob.items (g :: q) = .literal g :: Glob.items q := by
    rw [Glob.items, itemsFrom, if_neg hstar, if_neg hany]
    split
    · next hbracket =>
      rw [bracket?_eq_none_iff.mpr (hopen hbracket)]
      rfl
    · rfl
  rw [fits, hitems, matchItems_cons Item.noConfusion]
  simp [Item.admits, fits]

/-- The matcher decides the relation. -/
theorem fits_iff : fits q t = true ↔ Matches q t := by
  constructor
  · intro h
    -- on the length of the pattern, since a bracket takes several glyphs of it at once
    induction hlength : q.length using Nat.strong_induction_on generalizing q t with
    | _ n ih =>
      subst hlength
      cases q with
      | nil => rw [matchItems_nil.mp h]; exact .done
      | cons g q =>
          have hrest : ∀ {v}, fits q v = true → Matches q v := fun hv =>
            ih _ (Nat.lt_succ_self _) hv rfl
          by_cases hstar : g = .char '*'
          · subst hstar
            obtain ⟨u, v, rfl, hv⟩ := fits_star.mp h
            exact .star u (hrest hv)
          by_cases hany : g = .char '?'
          · subst hany
            obtain ⟨g, v, rfl, hv⟩ := fits_any.mp h
            exact .any g (hrest hv)
          by_cases hopen : g = .char '[' → IsUnclosed q
          · obtain ⟨v, rfl, hv⟩ := (fits_literal hstar hany hopen).mp h
            exact .literal g hstar hany hopen (hrest hv)
          · obtain ⟨rfl, hclosed⟩ := Classical.not_imp.mp hopen
            rw [IsUnclosed] at hclosed
            push Not at hclosed
            obtain ⟨inside, after, hinside, rfl⟩ := hclosed
            obtain ⟨g, v, rfl, hadmits, hv⟩ := (fits_bracket hinside).mp h
            refine .bracket g hinside hadmits (ih after.length ?_ hv rfl)
            simp only [List.length_append, List.length_cons]
            omega
  · intro h
    induction h with
    | done => rfl
    | star skipped _ ih => exact fits_star.mpr ⟨skipped, _, rfl, ih⟩
    | any g _ ih => exact fits_any.mpr ⟨g, _, rfl, ih⟩
    | bracket g hinside hadmits _ ih => exact (fits_bracket hinside).mpr ⟨g, _, rfl, hadmits, ih⟩
    | literal g hstar hany hopen _ ih => exact (fits_literal hstar hany hopen).mpr ⟨_, rfl, ih⟩

/-! ## Boundaries -/

/-- Behind `**/` a pattern matches what stands behind any slash. -/
theorem fits_doubleStar_iff : fits ("**/" ++ q) p = true ↔
    ∃ x y, p = x ++ .char '/' :: y ∧ Matches q y := by
  have hslash : ∀ {t}, fits (.char '/' :: q) t = true ↔ ∃ y, t = .char '/' :: y ∧ Matches q y := by
    intro t
    rw [fits_literal (by decide) (by decide) fun h => absurd h (by decide)]
    simp only [fits_iff]
  show fits (.char '*' :: .char '*' :: .char '/' :: q) p = true ↔ _
  rw [fits_star]
  constructor
  · rintro ⟨u, v, rfl, hstar⟩
    obtain ⟨u', v', rfl, hfits⟩ := fits_star.mp hstar
    obtain ⟨y, rfl, hy⟩ := hslash.mp hfits
    exact ⟨u ++ u', y, (List.append_assoc ..).symm, hy⟩
  · rintro ⟨x, y, rfl, hy⟩
    exact ⟨x, _, rfl, fits_star.mpr ⟨[], _, rfl, hslash.mpr ⟨y, rfl, hy⟩⟩⟩

/-- Behind `**/` a pattern matches a path from its beginning or from behind any of its slashes, and
so what it matches it matches in every folder further down. -/
theorem accepts_doubleStar_iff (q p : Text) :
    (accepts ("**/" ++ q) p = true ↔
      Matches q p ∨ ∃ x y, p = x ++ .char '/' :: y ∧ Matches q y) ∧
    (accepts ("**/" ++ q) p = true →
      ∀ dir : Text, accepts ("**/" ++ q) (dir ++ .char '/' :: p) = true) := by
  have hiff : ∀ p, accepts ("**/" ++ q) p = true ↔
      Matches q p ∨ ∃ x y, p = x ++ .char '/' :: y ∧ Matches q y := by
    intro p
    have hhead : Text.dropHead? "**/" ("**/" ++ q) = some q :=
      List.isPrefixOf?_eq_some_iff_append_eq.mpr rfl
    rw [accepts, hhead, Bool.or_eq_true, fits_doubleStar_iff, or_comm]
    dsimp only
    rw [fits_iff]
  refine ⟨hiff p, fun h dir => (hiff _).mpr (Or.inr ?_)⟩
  rcases (hiff p).mp h with hp | ⟨x, y, rfl, hy⟩
  · exact ⟨dir, p, rfl, hp⟩
  · exact ⟨dir ++ .char '/' :: x, y, by simp, hy⟩

/-- A page whose name begins with a capital or an underscore, in a folder and in one below. -/
theorem accepts_doubleStar_capital :
    accepts ("**/" ++ ("[A-Z_]*.html" : Text)) "docs/Index.html" = true ∧
      accepts ("**/" ++ ("[A-Z_]*.html" : Text))
        ("site" ++ .char '/' :: ("docs/Index.html" : Text)) = true := by
  have h : accepts ("**/" ++ ("[A-Z_]*.html" : Text)) "docs/Index.html" = true := by decide +kernel
  exact ⟨h, (accepts_doubleStar_iff _ _).2 h _⟩

end Stencil.Glob
