import Stencil.Proofs.Marker.Kinds
import Stencil.Proofs.Text.Places

/-!
# Scanning piece by piece

A text may be cut in front of an opener, and its pieces scanned one by one. No comment is lost where
the pieces meet and none appears there, whatever the first piece ends with: a closer or an opener
that is cut in two would need a `<` in the wrong place, and a comment that is still open is given up
at the opener. The markers of the second piece say what they said, but stand where the first one ends
(`Token.movedBehind`). `scan_pieces` says this of two pieces and of any number of them.
-/

namespace Stencil.Marker

/-- A text that is empty or begins with an opener. -/
def OpensAnew (t : Text) : Prop := t = [] ∨ opener <+: t

instance (t : Text) : Decidable (OpensAnew t) := inferInstanceAs (Decidable (_ ∨ _))

/-- The marker in a text that has another one in front of it. -/
def Token.movedBehind (before : Text) (token : Token) : Token :=
  { token with
    span := ⟨(Position.endOf before).onward token.span.start,
      (Position.endOf before).onward token.span.stop⟩
    start := before.length + token.start
    stop := before.length + token.stop }

/-- The markers of pieces that follow a text, each piece scanned by itself. -/
def scanEach : (before : Text) → (pieces : List Text) → List Token
  | _, [] => []
  | before, piece :: pieces =>
    (scan piece).map (Token.movedBehind before) ++ scanEach (before ++ piece) pieces

/-! ## Comments and tokens that move -/

theorem commentsFrom_add (n p : Nat) (t : Text) : commentsFrom (n + p) t =
    (commentsFrom p t).map fun c => ⟨n + c.start, c.body⟩ := by
  induction t generalizing p with
  | nil => rfl
  | cons g t ih =>
      rw [commentsFrom, commentsFrom, Nat.add_assoc, ih]
      cases commentAt? (g :: t) <;> rfl

theorem comments_append {t u : Text} (h : OpensAnew u) :
    comments (t ++ u) = comments t ++ (comments u).map fun c => ⟨t.length + c.start, c.body⟩ := by
  rcases h with rfl | ⟨u, rfl⟩
  · rw [List.append_nil]
    exact (List.append_nil _).symm
  · rw [comments, commentsFrom_append_opener, comments, comments, ← commentsFrom_add, Nat.zero_add,
      Nat.add_zero]

theorem tokenOf?_append_left {t : Text} {c : Comment} (hlt : c.start < c.stop)
    (hle : c.stop ≤ t.length) (u : Text) :
    tokenOf? (Position.lineStarts (t ++ u)) c = tokenOf? (Position.lineStarts t) c := by
  rw [tokenOf?, tokenOf?, Position.ofOffset_append_left (hlt.le.trans hle),
    Position.ofOffset_append_left hle]

theorem tokenOf?_append_right {u : Text} {c : Comment} (hlt : c.start < c.stop)
    (hle : c.stop ≤ u.length) (t : Text) :
    tokenOf? (Position.lineStarts (t ++ u)) ⟨t.length + c.start, c.body⟩ =
      (tokenOf? (Position.lineStarts u) c).map (Token.movedBehind t) := by
  have hstop : (Comment.mk (t.length + c.start) c.body).stop = t.length + c.stop := by
    simp only [Comment.stop, Nat.add_assoc]
  rw [tokenOf?, tokenOf?, hstop, Position.ofOffset_append_right (hlt.le.trans hle),
    Position.ofOffset_append_right hle, Option.map_map]
  rfl

/-! ## Scanning joined texts -/

theorem scan_append {t u : Text} (h : OpensAnew u) :
    scan (t ++ u) = scan t ++ (scan u).map (Token.movedBehind t) := by
  obtain ⟨-, hfirst⟩ := pairwise_commentsFrom 0 t
  obtain ⟨-, hsecond⟩ := pairwise_commentsFrom 0 u
  rw [scan, comments_append h, List.filterMap_append, List.filterMap_map, scan, scan,
    List.map_filterMap]
  congr 1
  · refine List.filterMap_congr fun c hc => ?_
    obtain ⟨-, hlt, hle⟩ := hfirst c hc
    exact tokenOf?_append_left hlt (by omega) u
  · refine List.filterMap_congr fun c hc => ?_
    obtain ⟨-, hlt, hle⟩ := hsecond c hc
    exact tokenOf?_append_right hlt (by omega) t

theorem scan_append_flatten {pieces : List Text} (h : ∀ piece ∈ pieces, OpensAnew piece) :
    ∀ before : Text, scan (before ++ pieces.flatten) = scan before ++ scanEach before pieces := by
  induction pieces with
  | nil => intro before; simp [scanEach]
  | cons piece pieces ih =>
      obtain ⟨hpiece, hpieces⟩ := List.forall_mem_cons.mp h
      intro before
      rw [List.flatten_cons, ← List.append_assoc, ih hpieces, scan_append hpiece, scanEach,
        List.append_assoc]

theorem Token.movedBehind_nil (token : Token) : token.movedBehind [] = token := by
  simp only [movedBehind, Position.endOf_nil_onward, List.length_nil, Nat.zero_add]

/-- A text that is cut in front of openers has the markers of its pieces: those of each piece, moved
to where the pieces before it end, and otherwise as they are in it. -/
theorem scan_pieces :
    (∀ t u : Text, OpensAnew u → scan (t ++ u) = scan t ++ (scan u).map (Token.movedBehind t)) ∧
      ∀ (piece : Text) (pieces : List Text), (∀ later ∈ pieces, OpensAnew later) →
        scan (piece :: pieces).flatten = scanEach [] (piece :: pieces) := by
  refine ⟨fun t u h => scan_append h, fun piece pieces h => ?_⟩
  have hself : (scan piece).map (Token.movedBehind []) = scan piece := by
    rw [List.map_congr_left fun token _ => token.movedBehind_nil, List.map_id']
  rw [List.flatten_cons, scan_append_flatten h, scanEach, hself, List.nil_append]

/-- Pieces whose ends look like the beginnings of delimiters, one of them with a comment that stays
open. -/
def raggedPieces : List Text :=
  ["a\n<!-", "<!-- InstanceEnd --\n-", "<!-- x <!", "", "<!-- InstanceEnd -->-->"]

theorem scan_raggedPieces : (∀ later ∈ raggedPieces.tail, OpensAnew later) ∧
    scan raggedPieces.flatten = scanEach [] raggedPieces ∧
      (scanEach [] raggedPieces).map (·.span) = [⟨⟨2, 10⟩, ⟨2, 30⟩⟩] := by
  have hopens : ∀ later ∈ raggedPieces.tail, OpensAnew later := by decide +kernel
  exact ⟨hopens, scan_pieces.2 "a\n<!-" raggedPieces.tail hopens, by decide +kernel⟩

end Stencil.Marker
