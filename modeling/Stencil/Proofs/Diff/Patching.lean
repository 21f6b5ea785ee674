import Stencil.Diff.Summary
import Stencil.Proofs.Diff.CommonRuns

/-!
# Hunks as a patch

The hunks between two texts explain how the one becomes the other (`Explains`): up to the first hunk, from
one to the next and behind the last one the lines agree, and each hunk shows the lines of its two ranges in
order. That is so because the pieces of the alignment lie one behind the other on both sides (`Laid`), and
neither trimming them at the ends of the text nor cutting a long common stretch in two leaves out anything
but lines that agree (`exists_trimEnds`, `explains_groupFrom`). So replacing the old ranges by the new ones
turns the old lines into the new ones (`isPatch_hunks`), whatever the context.
-/

namespace Stencil

namespace Hunk

/-- How many old lines stand before the hunk. -/
def oldAt (h : Hunk) : Nat := if 0 < h.oldLines then h.oldStart - 1 else h.oldStart

def newAt (h : Hunk) : Nat := if 0 < h.newLines then h.newStart - 1 else h.newStart

def oldStop (h : Hunk) : Nat := h.oldAt + h.oldLines

def newStop (h : Hunk) : Nat := h.newAt + h.newLines

end Hunk

namespace Diff

/-! ## Lines with their signs -/

def hasSign (sign : Char) (line : Text) : Bool := line.head? = some (.char sign)

/-- The lines that are shown with a sign or as common to both sides, without the signs. -/
def side (sign : Char) (shown : List Text) : List Text :=
  (shown.filter fun line => hasSign ' ' line || hasSign sign line).map List.tail

theorem hasSign_cons (sign own : Char) (line : Text) :
    hasSign sign (.char own :: line) = decide (own = sign) := by
  rw [hasSign, List.head?_cons, decide_eq_decide, Option.some_inj, Glyph.char.injEq]

theorem side_append (sign : Char) (shown shown' : List Text) :
    side sign (shown ++ shown') = side sign shown ++ side sign shown' := by
  rw [side, List.filter_append, List.map_append]
  rfl

theorem length_side {sign : Char} (hsign : sign ≠ ' ') (shown : List Text) :
    (side sign shown).length = shown.countP (hasSign ' ') + shown.countP (hasSign sign) := by
  rw [side, List.length_map]
  induction shown with
  | nil => rfl
  | cons line shown ih =>
      have hdisjoint : hasSign ' ' line = true → hasSign sign line = false := by
        intro h
        have hhead : line.head? = some (.char ' ') := of_decide_eq_true h
        rw [hasSign, hhead, decide_eq_false_iff_not, Option.some_inj, Glyph.char.injEq]
        exact hsign.symm
      rw [List.filter_cons, List.countP_cons, List.countP_cons]
      cases hblank : hasSign ' ' line with
      | true =>
          simp [hdisjoint hblank, ih]
          omega
      | false =>
          cases hown : hasSign sign line with
          | true =>
              simp [ih]
              omega
          | false => simpa using ih

/-- A sign in front of each line. -/
theorem side_signed (sign own : Char) (lines : List Text) :
    side sign (lines.map fun line => .char own :: Text.chomp line) =
      if own = ' ' ∨ own = sign then lines.map Text.chomp else [] := by
  rw [side]
  by_cases h : own = ' ' ∨ own = sign
  · rw [if_pos h, List.filter_eq_self.mpr, List.map_map]
    · rfl
    · simpa [hasSign_cons] using fun _ _ => h
  · rw [if_neg h, List.map_eq_nil_iff, List.filter_eq_nil_iff]
    simpa [hasSign_cons, not_or] using fun _ _ => not_or.mp h

theorem side_shownChunk (chunk : Chunk) :
    side '-' (shownChunk chunk) = chunk.old.map Text.chomp ∧
      side '+' (shownChunk chunk) = chunk.new.map Text.chomp := by
  cases chunk with
  | same lines =>
      rw [shownChunk, side_signed, side_signed]
      exact ⟨rfl, rfl⟩
  | differ old new =>
      rw [shownChunk, side_append, side_append, side_signed, side_signed, side_signed, side_signed]
      exact ⟨List.append_nil _, rfl⟩

/-- What the pieces of a group show on one side, if that is known of each of them. -/
theorem side_flatMap_shownChunk {sign : Char} {lines : Chunk → List Text}
    (h : ∀ chunk, side sign (shownChunk chunk) = (lines chunk).map Text.chomp) (pieces : List Piece) :
    side sign (pieces.flatMap fun p => shownChunk p.chunk) =
      (pieces.flatMap fun p => lines p.chunk).map Text.chomp := by
  induction pieces with
  | nil => rfl
  | cons p ps ih =>
      rw [List.flatMap_cons, side_append, ih, h, List.flatMap_cons, List.map_append]

theorem signed_shownChunk (chunk : Chunk) :
    ∀ line ∈ shownChunk chunk, ∃ sign ∈ [' ', '-', '+'], line.head? = some (.char sign) := by
  intro line hline
  cases chunk with
  | same lines =>
      obtain ⟨_, -, rfl⟩ := List.mem_map.mp hline
      exact ⟨' ', by simp, rfl⟩
  | differ old new =>
      rcases List.mem_append.mp hline with hline | hline
      · obtain ⟨_, -, rfl⟩ := List.mem_map.mp hline
        exact ⟨'-', by simp, rfl⟩
      · obtain ⟨_, -, rfl⟩ := List.mem_map.mp hline
        exact ⟨'+', by simp, rfl⟩

/-! ## What hunks say -/

/-- A hunk shows these old lines and these new lines, each without its break, and counts them. -/
structure Shows (h : Hunk) (old new : List Text) : Prop where
  minus : side '-' h.lines = old.map Text.chomp
  plus : side '+' h.lines = new.map Text.chomp
  oldLines : h.oldLines = old.length
  newLines : h.newLines = new.length
  signed : ∀ line ∈ h.lines, ∃ sign ∈ [' ', '-', '+'], line.head? = some (.char sign)

theorem Shows.balance {h : Hunk} {old new : List Text} (hshows : Shows h old new) :
    h.lines.countP (hasSign '+') + old.length = h.lines.countP (hasSign '-') + new.length := by
  have hold := length_side (show '-' ≠ ' ' by decide) h.lines
  have hnew := length_side (show '+' ≠ ' ' by decide) h.lines
  rw [hshows.minus, List.length_map] at hold
  rw [hshows.plus, List.length_map] at hnew
  omega

/-- The hunks explain how old lines become new ones, which are the lines behind so many on either side.
Before the first hunk there are at least so many lines that agree, and between two hunks at least
one. -/
inductive Explains : (least i j : Nat) → (old new : List Text) → List Hunk → Prop
  | same (least i j : Nat) (lines : List Text) : Explains least i j lines lines []
  | hunk {least i j : Nat} {gap olds news old new : List Text} {h : Hunk} {hunks : List Hunk}
      (gap_length : least ≤ gap.length) (oldAt : h.oldAt = i + gap.length)
      (newAt : h.newAt = j + gap.length) (shows : Shows h olds news)
      (rest : Explains 1 h.oldStop h.newStop old new hunks) :
      Explains least i j (gap ++ (olds ++ old)) (gap ++ (news ++ new)) (h :: hunks)

/-- The lines outside the ranges of the hunks on one side, from behind so many lines on. -/
def outside (start stop : Hunk → Nat) : (passed : Nat) → List Text → List Hunk → List Text
  | _, lines, [] => lines
  | passed, lines, h :: hunks =>
    lines.take (start h - passed) ++
      outside start stop (stop h) (lines.drop (stop h - passed)) hunks

/-- The old lines from behind so many on, with the range of each hunk replaced by its new lines. -/
def patch (new : List Text) : (passed : Nat) → List Text → List Hunk → List Text
  | _, old, [] => old
  | passed, old, h :: hunks =>
    old.take (h.oldAt - passed) ++ ((new.drop h.newAt).take h.newLines ++
      patch new h.oldStop (old.drop (h.oldStop - passed)) hunks)

namespace Explains

variable {least i j : Nat} {old new : List Text} {hunks : List Hunk}

theorem outside_eq (h : Explains least i j old new hunks) :
    outside Hunk.oldAt Hunk.oldStop i old hunks = outside Hunk.newAt Hunk.newStop j new hunks := by
  induction h with
  | same => rfl
  | @hunk least i j gap olds news old new h hunks _ hold hnew hshows _ ih =>
      have holds : h.oldStop - i = (gap ++ olds).length := by
        rw [Hunk.oldStop, hold, hshows.oldLines, List.length_append]
        omega
      have hnews : h.newStop - j = (gap ++ news).length := by
        rw [Hunk.newStop, hnew, hshows.newLines, List.length_append]
        omega
      rw [outside, outside, holds, hnews, hold, hnew, Nat.add_sub_cancel_left,
        Nat.add_sub_cancel_left, List.take_left, List.take_left, ← List.append_assoc,
        ← List.append_assoc, List.drop_left, List.drop_left, ih]

theorem patch_eq (h : Explains least i j old new hunks) {before : List Text}
    (hbefore : before.length = j) : patch (before ++ new) i old hunks = new := by
  induction h generalizing before with
  | same => rfl
  | @hunk least i j gap olds news old new h hunks _ hold hnew hshows _ ih =>
      have holds : h.oldStop - i = (gap ++ olds).length := by
        rw [Hunk.oldStop, hold, hshows.oldLines, List.length_append]
        omega
      have hat : h.newAt = (before ++ gap).length := by
        rw [hnew, List.length_append, hbefore]
      have hrange : ((before ++ (gap ++ (news ++ new))).drop h.newAt).take h.newLines = news := by
        rw [hat, ← List.append_assoc, List.drop_left, hshows.newLines, List.take_left]
      have hrest := @ih (before ++ (gap ++ news)) (by
        rw [Hunk.newStop, hat, hshows.newLines, ← List.append_assoc, List.length_append])
      rw [patch, hrange, holds, hold, Nat.add_sub_cancel_left, List.take_left,
        ← List.append_assoc gap olds, List.drop_left]
      rw [List.append_assoc, List.append_assoc] at hrest
      rw [hrest]

theorem bounds (h : Explains least i j old new hunks) :
    ∀ hunk ∈ hunks, i + least ≤ hunk.oldAt ∧ j + least ≤ hunk.newAt := by
  induction h with
  | same => simp
  | @hunk least i j gap olds news old new h hunks hgap hold hnew hshows _ ih =>
      refine List.forall_mem_cons.mpr ⟨by omega, fun hunk hmem => ?_⟩
      obtain ⟨holdNext, hnewNext⟩ := ih hunk hmem
      rw [Hunk.oldStop] at holdNext
      rw [Hunk.newStop] at hnewNext
      omega

theorem pairwise (h : Explains least i j old new hunks) : hunks.Pairwise fun hunk hunk' =>
    hunk.oldStop < hunk'.oldAt ∧ hunk.newStop < hunk'.newAt := by
  induction h with
  | same => exact .nil
  | hunk _ _ _ _ hrest ih => exact .cons (fun hunk' hmem => hrest.bounds hunk' hmem) ih

/-- Each hunk shows the lines of its ranges. -/
theorem forall_shows (h : Explains least i j old new hunks) {before before' : List Text}
    (hbefore : before.length = i) (hbefore' : before'.length = j) :
    ∀ hunk ∈ hunks, Shows hunk (((before ++ old).drop hunk.oldAt).take hunk.oldLines)
      (((before' ++ new).drop hunk.newAt).take hunk.newLines) := by
  induction h generalizing before before' with
  | same => simp
  | @hunk least i j gap olds news old new h hunks _ hold hnew hshows _ ih =>
      have holdAt : h.oldAt = (before ++ gap).length := by rw [hold, List.length_append, hbefore]
      have hnewAt : h.newAt = (before' ++ gap).length := by rw [hnew, List.length_append, hbefore']
      refine List.forall_mem_cons.mpr ⟨?_, ?_⟩
      · rw [holdAt, hnewAt, ← List.append_assoc before, ← List.append_assoc before', List.drop_left,
          List.drop_left, hshows.oldLines, hshows.newLines, List.take_left, List.take_left]
        exact hshows
      · have hrest := @ih (before ++ (gap ++ olds)) (before' ++ (gap ++ news))
          (by rw [Hunk.oldStop, holdAt, hshows.oldLines, ← List.append_assoc, List.length_append])
          (by rw [Hunk.newStop, hnewAt, hshows.newLines, ← List.append_assoc, List.length_append])
        simpa only [List.append_assoc] using hrest

theorem balance (h : Explains least i j old new hunks) :
    (hunks.flatMap (·.lines)).countP (hasSign '+') + old.length =
      (hunks.flatMap (·.lines)).countP (hasSign '-') + new.length := by
  induction h with
  | same => rfl
  | hunk _ _ _ hshows _ ih =>
      have hown := hshows.balance
      simp only [List.flatMap_cons, List.countP_append, List.length_append] at ih hown ⊢
      omega

end Explains

/-! ## Pieces in a row -/

/-- The old lines of pieces. -/
def olds (pieces : List Piece) : List Text := pieces.flatMap fun p => p.chunk.old

def news (pieces : List Piece) : List Text := pieces.flatMap fun p => p.chunk.new

/-- The pieces lie one behind the other on both sides, the first behind so many lines. -/
def Laid : (i j : Nat) → List Piece → Prop
  | _, _, [] => True
  | i, j, p :: ps => p.oldAt = i ∧ p.newAt = j ∧ Laid p.oldStop p.newStop ps

theorem olds_append (ps qs : List Piece) : olds (ps ++ qs) = olds ps ++ olds qs :=
  List.flatMap_append

theorem news_append (ps qs : List Piece) : news (ps ++ qs) = news ps ++ news qs :=
  List.flatMap_append

theorem olds_cons (p : Piece) (ps : List Piece) : olds (p :: ps) = p.chunk.old ++ olds ps :=
  List.flatMap_cons

theorem news_cons (p : Piece) (ps : List Piece) : news (p :: ps) = p.chunk.new ++ news ps :=
  List.flatMap_cons

theorem laid_append {i j : Nat} {ps qs : List Piece} : Laid i j (ps ++ qs) ↔
    Laid i j ps ∧ Laid (i + (olds ps).length) (j + (news ps).length) qs := by
  induction ps generalizing i j with
  | nil => exact (iff_of_eq (true_and _)).symm
  | cons p ps ih =>
      rw [List.cons_append, Laid, Laid, ih, olds_cons, news_cons, List.length_append,
        List.length_append, ← Nat.add_assoc, ← Nat.add_assoc, and_assoc, and_assoc]
      constructor
      · rintro ⟨rfl, rfl, hps, hqs⟩
        exact ⟨rfl, rfl, hps, hqs⟩
      · rintro ⟨rfl, rfl, hps, hqs⟩
        exact ⟨rfl, rfl, hps, hqs⟩

theorem laid_place (i j : Nat) (chunks : List Chunk) : Laid i j (place i j chunks) := by
  induction chunks generalizing i j with
  | nil => trivial
  | cons chunk chunks ih => exact ⟨rfl, rfl, ih _ _⟩

theorem olds_place (i j : Nat) (chunks : List Chunk) :
    olds (place i j chunks) = chunks.flatMap Chunk.old ∧
      news (place i j chunks) = chunks.flatMap Chunk.new := by
  induction chunks generalizing i j with
  | nil => exact ⟨rfl, rfl⟩
  | cons chunk chunks ih =>
      obtain ⟨hold, hnew⟩ := ih (i + chunk.old.length) (j + chunk.new.length)
      rw [place, olds_cons, news_cons, hold, hnew]
      exact ⟨rfl, rfl⟩

/-- Where the last piece of a row stops. -/
theorem Laid.getLast {i j : Nat} {ps : List Piece} (h : Laid i j ps) (hne : ps ≠ []) :
    (ps.getLast hne).oldStop = i + (olds ps).length ∧
      (ps.getLast hne).newStop = j + (news ps).length := by
  have hsplit := (List.dropLast_concat_getLast hne).symm
  rw [hsplit] at h
  obtain ⟨-, hold, hnew, -⟩ := laid_append.mp h
  rw [Piece.oldStop, Piece.newStop, hold, hnew]
  conv => enter [1, 2]; rw [hsplit]
  conv => enter [2, 2]; rw [hsplit]
  simp [olds, news, Nat.add_assoc]

/-- What the hunk of a group says. -/
theorem showshunkOf {i j : Nat} {first : Piece} {rest : List Piece} (h : Laid i j (first :: rest)) :
    (hunkOf first rest).oldAt = i ∧ (hunkOf first rest).newAt = j ∧
      Shows (hunkOf first rest) (olds (first :: rest)) (news (first :: rest)) := by
  obtain ⟨hold, hnew⟩ := h.getLast (List.cons_ne_nil _ _)
  obtain ⟨rfl, rfl, -⟩ := h
  have holdLines : (hunkOf first rest).oldLines = (olds (first :: rest)).length := by
    simp only [hunkOf, hold]
    omega
  have hnewLines : (hunkOf first rest).newLines = (news (first :: rest)).length := by
    simp only [hunkOf, hnew]
    omega
  refine ⟨?_, ?_, ?_, ?_, holdLines, hnewLines, ?_⟩
  · simp only [Hunk.oldAt, hunkOf]
    split <;> omega
  · simp only [Hunk.newAt, hunkOf]
    split <;> omega
  · exact side_flatMap_shownChunk (fun chunk => (side_shownChunk chunk).1) (first :: rest)
  · exact side_flatMap_shownChunk (fun chunk => (side_shownChunk chunk).2) (first :: rest)
  · intro line hline
    obtain ⟨p, -, hp⟩ := List.mem_flatMap.mp hline
    exact signed_shownChunk p.chunk line hp

/-! ## Trimming -/

theorem exists_keepLast (n : Nat) (p : Piece) : ∃ gap, p.chunk.old = gap ++ (p.keepLast n).chunk.old ∧
    p.chunk.new = gap ++ (p.keepLast n).chunk.new ∧ (p.keepLast n).oldAt = p.oldAt + gap.length ∧
      (p.keepLast n).newAt = p.newAt + gap.length := by
  obtain ⟨oldAt, newAt, chunk⟩ := p
  cases chunk with
  | same lines =>
      have hlength : (lines.take (lines.length - n)).length = lines.length - n :=
        List.length_take_of_le (Nat.sub_le _ _)
      refine ⟨lines.take (lines.length - n), (List.take_append_drop _ lines).symm,
        (List.take_append_drop _ lines).symm, ?_, ?_⟩
      · rw [hlength]
        rfl
      · rw [hlength]
        rfl
  | differ old new => exact ⟨[], rfl, rfl, rfl, rfl⟩

theorem exists_keepFirst (n : Nat) (p : Piece) :
    ∃ tail, p.chunk.old = (p.keepFirst n).chunk.old ++ tail ∧
      p.chunk.new = (p.keepFirst n).chunk.new ++ tail ∧ (p.keepFirst n).oldAt = p.oldAt ∧
        (p.keepFirst n).newAt = p.newAt := by
  obtain ⟨oldAt, newAt, chunk⟩ := p
  cases chunk with
  | same lines =>
      exact ⟨lines.drop n, (List.take_append_drop n lines).symm, (List.take_append_drop n lines).symm,
        rfl, rfl⟩
  | differ old new => exact ⟨[], (List.append_nil _).symm, (List.append_nil _).symm, rfl, rfl⟩

theorem trimEnds_eq {context : Nat} {p q : Piece} {ps init : List Piece}
    (h : p.keepLast context :: ps = init ++ [q]) :
    trimEnds context (p :: ps) = init ++ [q.keepFirst context] := by
  have hreverse : (p.keepLast context :: ps).reverse = q :: init.reverse := by
    rw [h, List.reverse_append, List.reverse_singleton, List.singleton_append]
  rw [trimEnds, hreverse]
  dsimp only
  rw [List.reverse_cons, List.reverse_reverse]

/-- Trimming leaves out lines that agree. -/
theorem exists_trimEnds (context : Nat) {pieces : List Piece} (h : Laid 0 0 pieces) :
    ∃ gap tail, Laid gap.length gap.length (trimEnds context pieces) ∧
      olds pieces = gap ++ (olds (trimEnds context pieces) ++ tail) ∧
      news pieces = gap ++ (news (trimEnds context pieces) ++ tail) := by
  cases pieces with
  | nil => exact ⟨[], [], trivial, rfl, rfl⟩
  | cons p ps =>
      obtain ⟨init, q, hsplit⟩ :=
        (List.eq_nil_or_concat (p.keepLast context :: ps)).resolve_left (List.cons_ne_nil _ _)
      rw [List.concat_eq_append] at hsplit
      obtain ⟨gap, hold, hnew, holdAt, hnewAt⟩ := exists_keepLast context p
      obtain ⟨tail, hold', hnew', holdAt', hnewAt'⟩ := exists_keepFirst context q
      have hlaid : Laid gap.length gap.length (init ++ [q]) := by
        obtain ⟨hi, hj, hps⟩ := h
        rw [hi, Nat.zero_add] at holdAt
        rw [hj, Nat.zero_add] at hnewAt
        rw [← hsplit]
        refine ⟨holdAt, hnewAt, ?_⟩
        rw [Piece.oldStop, Piece.newStop, hold, hnew, hi, hj, List.length_append,
          List.length_append, Nat.zero_add, Nat.zero_add] at hps
        rwa [Piece.oldStop, Piece.newStop, holdAt, hnewAt]
      rw [trimEnds_eq hsplit]
      refine ⟨gap, tail, ?_, ?_, ?_⟩
      · obtain ⟨hinit, hqOld, hqNew, -⟩ := laid_append.mp hlaid
        exact laid_append.mpr ⟨hinit, holdAt'.trans hqOld, hnewAt'.trans hqNew, trivial⟩
      · have hpieces : p.chunk.old ++ olds ps = gap ++ olds (init ++ [q]) := by
          rw [← hsplit, olds_cons, hold, List.append_assoc]
        rw [olds_cons, hpieces, olds_append, olds_append, olds_cons, olds_cons, hold']
        simp [olds]
      · have hpieces : p.chunk.new ++ news ps = gap ++ news (init ++ [q]) := by
          rw [← hsplit, news_cons, hnew, List.append_assoc]
        rw [news_cons, hpieces, news_append, news_append, news_cons, news_cons, hnew']
        simp [news]

/-! ## Groups -/

/-- The hunks of groups. -/
def hunksOf (groups : List (List Piece)) : List Hunk :=
  groups.filterMap fun
    | [] => none
    | first :: rest => some (hunkOf first rest)

theorem olds_eq_news_of_isSame {ps : List Piece} (h : ps.all Piece.isSame = true) :
    olds ps = news ps := by
  induction ps with
  | nil => rfl
  | cons p ps ih =>
      obtain ⟨hp, hps⟩ := (Bool.and_eq_true _ _).mp (List.all_cons.symm.trans h)
      obtain ⟨oldAt, newAt, chunk⟩ := p
      cases chunk with
      | same lines => rw [olds_cons, news_cons, ih hps, Chunk.old, Chunk.new]
      | differ old new => cases hp

/-- The hunk of a group, behind lines that agree. -/
theorem Explains.group {least i j : Nat} {gap old new : List Text} {group : List Piece}
    {groups : List (List Piece)} (hgap : least ≤ gap.length) (hne : group ≠ [])
    (hlaid : Laid (i + gap.length) (j + gap.length) group)
    (hrest : Explains 1 (i + gap.length + (olds group).length) (j + gap.length + (news group).length)
      old new (hunksOf groups)) :
    Explains least i j (gap ++ (olds group ++ old)) (gap ++ (news group ++ new))
      (hunksOf (group :: groups)) := by
  cases group with
  | nil => exact absurd rfl hne
  | cons first rest =>
      obtain ⟨hold, hnew, hshows⟩ := showshunkOf hlaid
      refine .hunk hgap hold hnew hshows ?_
      rwa [Hunk.oldStop, Hunk.newStop, hold, hnew, hshows.oldLines, hshows.newLines]

/-- A long stretch of common lines is cut into its first lines, some in the middle and its last ones. -/
theorem exists_middle {context : Nat} {p : Piece} (h : p.isLongSame (2 * context) = true) :
    ∃ middle, 1 ≤ middle.length ∧
      p.chunk.old = (p.keepFirst context).chunk.old ++ (middle ++ (p.keepLast context).chunk.old) ∧
      p.chunk.new = (p.keepFirst context).chunk.new ++ (middle ++ (p.keepLast context).chunk.new) ∧
      (p.keepFirst context).oldAt = p.oldAt ∧ (p.keepFirst context).newAt = p.newAt ∧
      (p.keepLast context).oldAt = (p.keepFirst context).oldStop + middle.length ∧
      (p.keepLast context).newAt = (p.keepFirst context).newStop + middle.length := by
  obtain ⟨oldAt, newAt, chunk⟩ := p
  cases chunk with
  | differ old new => cases h
  | same lines =>
      have hlong : 2 * context < lines.length := of_decide_eq_true h
      have hfirst : (lines.take context).length = context := List.length_take_of_le (by omega)
      have hmiddle : ((lines.drop context).take (lines.length - 2 * context)).length =
          lines.length - 2 * context :=
        List.length_take_of_le (by rw [List.length_drop]; omega)
      have hlines : lines = lines.take context ++ ((lines.drop context).take
          (lines.length - 2 * context) ++ lines.drop (lines.length - context)) := by
        have hlast : lines.drop (lines.length - context) =
            (lines.drop context).drop (lines.length - 2 * context) := by
          rw [List.drop_drop]
          exact congrArg lines.drop (by omega)
        rw [hlast, List.take_append_drop, List.take_append_drop]
      have hplace : ∀ n, n + (lines.length - context) =
          n + (lines.take context).length + (lines.length - 2 * context) := by omega
      refine ⟨(lines.drop context).take (lines.length - 2 * context), by omega, hlines, hlines, rfl, rfl,
        ?_, ?_⟩
      · rw [hmiddle]
        exact hplace oldAt
      · rw [hmiddle]
        exact hplace newAt

theorem explains_groupFrom (context : Nat) {least i j : Nat} {gap : List Text} (tail : List Text)
    {opened ps : List Piece} (hgap : least ≤ gap.length)
    (hlaid : Laid (i + gap.length) (j + gap.length) (opened ++ ps)) :
    Explains least i j (gap ++ (olds (opened ++ ps) ++ tail)) (gap ++ (news (opened ++ ps) ++ tail))
      (hunksOf (groupFrom context opened ps)) := by
  induction ps generalizing least i j gap opened with
  | nil =>
      rw [List.append_nil] at hlaid ⊢
      rw [groupFrom]
      split
      · next hsame =>
        rw [olds_eq_news_of_isSame hsame]
        exact .same _ _ _ _
      · next hdiffers =>
        refine .group hgap ?_ hlaid (.same _ _ _ _)
        rintro rfl
        exact hdiffers rfl
  | cons p ps ih =>
      rw [groupFrom]
      split
      · next hlong =>
        obtain ⟨middle, hmiddle, hold, hnew, holdAt, hnewAt, holdLast, hnewLast⟩ := exists_middle hlong
        obtain ⟨hopened, hi, hj, hps⟩ := laid_append.mp hlaid
        have hgroup : Laid (i + gap.length) (j + gap.length) (opened ++ [p.keepFirst context]) :=
          laid_append.mpr ⟨hopened, holdAt.trans hi, hnewAt.trans hj, trivial⟩
        -- the next group begins behind the middle, with the last lines of the stretch
        have hrest := @ih 1 (p.keepFirst context).oldStop (p.keepFirst context).newStop middle
          [p.keepLast context] hmiddle (by
            rw [List.singleton_append]
            refine ⟨holdLast, hnewLast, ?_⟩
            rw [Piece.oldStop, Piece.newStop, holdLast, hnewLast, Piece.oldStop, Piece.newStop, holdAt,
              hnewAt]
            rw [Piece.oldStop, Piece.newStop, hold, hnew] at hps
            simpa only [List.length_append, Nat.add_assoc] using hps)
        have hlast := hgroup.getLast (List.append_ne_nil_of_right_ne_nil _ (List.cons_ne_nil _ _))
        rw [List.getLast_concat] at hlast
        rw [hlast.1, hlast.2] at hrest
        have holds : olds (opened ++ p :: ps) ++ tail = olds (opened ++ [p.keepFirst context]) ++
            (middle ++ (olds ([p.keepLast context] ++ ps) ++ tail)) := by
          simp [olds, hold]
        have hnews : news (opened ++ p :: ps) ++ tail = news (opened ++ [p.keepFirst context]) ++
            (middle ++ (news ([p.keepLast context] ++ ps) ++ tail)) := by
          simp [news, hnew]
        rw [holds, hnews]
        exact .group hgap (List.append_ne_nil_of_right_ne_nil _ (List.cons_ne_nil _ _)) hgroup hrest
      · have hrest := @ih least i j gap (opened ++ [p]) hgap (by
          rwa [List.append_assoc, List.singleton_append])
        rwa [List.append_assoc, List.singleton_append] at hrest

/-! ## All hunks -/

/-- The hunks explain the whole of two texts. -/
theorem explains_hunks (context : Nat) (old new : Text) :
    Explains 0 0 0 old.lines new.lines (hunks context old new) := by
  obtain ⟨halignOld, halignNew⟩ := flatMap_align old.lines new.lines
  obtain ⟨hold, hnew⟩ := olds_place 0 0 (align old.lines new.lines)
  obtain ⟨gap, tail, hlaid, holds, hnews⟩ :=
    exists_trimEnds context (laid_place 0 0 (align old.lines new.lines))
  rw [hold, halignOld] at holds
  rw [hnew, halignNew] at hnews
  have hexplains := @explains_groupFrom context 0 0 0 gap tail [] _
    (Nat.zero_le gap.length) (by rwa [Nat.zero_add, List.nil_append])
  rwa [List.nil_append, ← holds, ← hnews] at hexplains

theorem flatten_lines (t : Text) : t.lines.flatten = t := by
  induction t with
  | nil => rfl
  | cons g t ih =>
      rw [Text.lines]
      split
      · rw [List.flatten_cons, ih, List.singleton_append]
      · split
        · next hnil =>
          rw [hnil, List.flatten_nil] at ih
          rw [← ih]
          rfl
        · next line rest hcons =>
          rw [hcons, List.flatten_cons] at ih
          rw [List.flatten_cons, List.cons_append, ih]

theorem hunks_self (context : Nat) (t : Text) : hunks context t t = [] := by
  rw [hunks]
  by_cases hlines : t.lines = []
  · rw [hlines, align_nil]
    rfl
  · rw [align_self hlines]
    have hshort : ¬ 2 * context <
        ((t.lines.drop (t.lines.length - context)).take context).length := by
      simp only [List.length_take, List.length_drop]
      omega
    have hgroups : groupFrom context [] (trimEnds context (place 0 0 [.same t.lines])) = [] := by
      show (if decide (2 * context < ((t.lines.drop (t.lines.length - context)).take context).length)
        then _ else _) = _
      rw [if_neg (by simpa using hshort)]
      rfl
    rw [hgroups]
    rfl

/-- What makes hunks a patch from old to new lines. -/
structure IsPatch (old new : List Text) (hunks : List Hunk) : Prop where
  /-- The hunks stand in order and apart on both sides. -/
  ordered : hunks.Pairwise fun h h' => h.oldStop < h'.oldAt ∧ h.newStop < h'.newAt
  /-- Each shows the lines of its ranges. -/
  shows : ∀ h ∈ hunks, Shows h ((old.drop h.oldAt).take h.oldLines) ((new.drop h.newAt).take h.newLines)
  /-- The lines outside the ranges are the same. -/
  agree : outside Hunk.oldAt Hunk.oldStop 0 old hunks = outside Hunk.newAt Hunk.newStop 0 new hunks
  patched : patch new 0 old hunks = new

/-- The hunks of a summary, whatever its context, are a patch from the old text to the new one, there are
none just when the texts are the same, and their signs count the lines that the text has gained. -/
theorem isPatch_hunks (context : Nat) (old new path : Text) (report : List ReportLine) :
    (hunks context old new = [] ↔ old = new) ∧
      IsPatch old.lines new.lines (hunks context old new) ∧
      ((DiffSummary.make path old new context report).added : Int) -
          (DiffSummary.make path old new context report).removed =
        new.lines.length - old.lines.length := by
  have hexplains := explains_hunks context old new
  have hpatched : patch new.lines 0 old.lines (hunks context old new) = new.lines :=
    hexplains.patch_eq (@List.length_nil Text)
  refine ⟨⟨fun hnone => ?_, ?_⟩, ⟨hexplains.pairwise, ?_, hexplains.outside_eq, hpatched⟩, ?_⟩
  · rw [hnone, patch] at hpatched
    rw [← flatten_lines old, hpatched, flatten_lines]
  · rintro rfl
    exact hunks_self context old
  · exact hexplains.forall_shows (@List.length_nil Text) (@List.length_nil Text)
  · have hadded : (DiffSummary.make path old new context report).added =
        ((hunks context old new).flatMap (·.lines)).countP (hasSign '+') := rfl
    have hremoved : (DiffSummary.make path old new context report).removed =
        ((hunks context old new).flatMap (·.lines)).countP (hasSign '-') := rfl
    have hbalance := hexplains.balance
    omega

end Diff

end Stencil
