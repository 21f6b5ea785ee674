import Stencil.Document.Build
import Stencil.Proofs.Marker.Kinds
import Stencil.Proofs.Text.Places

/-!
# No place is refused

Places, ranges and tokens have constructors that check what they are given. Reading a document does
without them: offsets of a text are never negative, a marker ends behind its beginning, and a region
ends no earlier than it begins, since the markers of a text stand one behind the other
(`pairwise_commentsFrom`). Here every check is made (`Marker.scanChecked`, `Template.buildChecked`,
`Page.buildChecked`), and none ever fails: the outcome is that of reading without them, also where
the document is refused for another reason (`build_placed`).
-/

namespace Stencil

open Marker (Token Comment)

/-! ## Reading with every check -/

namespace Marker

/-- The token of a comment, its places and its range checked before it. -/
def tokenChecked (starts : List Nat) (c : Comment) : Except PlaceError (Option Token) :=
  match classify c.body with
  | none => .ok none
  | some (kind, attributes) => do
    let start ← Position.ofOffset? starts c.start
    let stop ← Position.ofOffset? starts c.stop
    let span ← Range.make? start stop
    let name := (kind.nameKey?.bind (attributes.lookup ·)).getD []
    let token ← Token.make? kind name span c.start c.stop c.raw attributes
    return some token

def tokensChecked (starts : List Nat) : List Comment → Except PlaceError (List Token)
  | [] => return []
  | c :: cs => do
    let token? ← tokenChecked starts c
    let tokens ← tokensChecked starts cs
    return token?.toList ++ tokens

/-- The markers of a text, none of them made unchecked. -/
def scanChecked (t : Text) : Except PlaceError (List Token) :=
  tokensChecked (Position.lineStarts t) (comments t)

end Marker

namespace Segment

/-- The segments from an offset on, the range of each region checked when its end is met. -/
def buildCheckedFrom (side : Side) (text : Text) (seen : List Text) (cursor : Nat) :
    Option Token → List Token → Except PlaceError (Except Fault (List Segment))
  | none, [] => return .ok (literals (text.drop cursor))
  | some opened, [] => return .error (.unterminated opened.name opened.position)
  | none, token :: tokens =>
    if token.kind = .regionBegin side then
      if token.name ∈ seen then return .error (.duplicate token.name token.position)
      else buildCheckedFrom side text seen cursor (some token) tokens
    else if token.kind = .regionEnd side then return .error (.danglingEnd token.position)
    else buildCheckedFrom side text seen cursor none tokens
  | some opened, token :: tokens =>
    if token.kind = .regionBegin side then
      return .error (.nested token.name opened.name token.position)
    else if token.kind = .regionEnd side then do
      let span ← Range.make? opened.span.stop token.position
      let rest ← buildCheckedFrom side text (opened.name :: seen) token.start none tokens
      return rest.map fun rest => literals (text.slice cursor opened.stop) ++
        .region opened.name (text.slice opened.stop token.start) span :: rest
    else buildCheckedFrom side text seen cursor (some opened) tokens

end Segment

/-- Reads a text as a template with every check. -/
def Template.buildChecked (text source : Text) : Except PlaceError (Except Fault Template) := do
  let tokens ← Marker.scanChecked text
  let segments ← Segment.buildCheckedFrom .template text [] 0 none tokens
  return segments.map fun segments => ⟨source, text, segments, Param.collect .template tokens⟩

/-- Reads a text as a page with every check. -/
def Page.buildChecked (text source : Text) : Except PlaceError (Except Fault Page) := do
  let tokens ← Marker.scanChecked text
  match bindingOf tokens with
  | .error fault => return .error fault
  | .ok binding => do
    let segments ← Segment.buildCheckedFrom .page text [] 0 none tokens
    return segments.map fun segments =>
      ⟨source, text, binding, bindingEndOf? binding tokens, segments, Param.collect .page tokens⟩

/-! ## Markers in their order -/

namespace Marker

/-- A marker begins no earlier than the one before it ends, as their places say. -/
def Token.Precedes (token token' : Token) : Prop := ¬ token'.position < token.span.stop

theorem pairwise_precedes_scan (t : Text) : (scan t).Pairwise Token.Precedes := by
  obtain ⟨hpairwise, hwithin⟩ := pairwise_commentsFrom 0 t
  have hbefore : (comments t).Pairwise fun c c' => c.stop ≤ c'.start ∧ c'.start ≤ t.length :=
    hpairwise.imp_of_mem fun {c c'} _ hc' hle => by
      obtain ⟨-, hlt, hstop⟩ := hwithin c' hc'
      omega
  refine hbefore.filterMap _ fun c c' ⟨hle, hlength⟩ token htoken token' htoken' => ?_
  obtain ⟨marker, -, rfl⟩ := Option.map_eq_some_iff.mp htoken
  obtain ⟨marker', -, rfl⟩ := Option.map_eq_some_iff.mp htoken'
  show ¬ Position.ofOffset (Position.lineStarts t) c'.start <
    Position.ofOffset (Position.lineStarts t) c.stop
  rw [Position.ofOffset_lineStarts hlength, Position.ofOffset_lineStarts (hle.trans hlength)]
  exact Position.not_endOf_take_lt hle hlength

/-! ## No check fails -/

theorem tokenChecked_eq {t : Text} {c : Comment} (hlt : c.start < c.stop)
    (hle : c.stop ≤ t.length) : tokenChecked (Position.lineStarts t) c =
      .ok (tokenOf? (Position.lineStarts t) c) := by
  have hstart : c.start ≤ t.length := hlt.le.trans hle
  rw [tokenChecked, tokenOf?]
  cases classify c.body with
  | none => rfl
  | some marker =>
      have hrange : Range.make? (Position.endOf (t.take c.start)) (Position.endOf (t.take c.stop)) =
          .ok ⟨Position.endOf (t.take c.start), Position.endOf (t.take c.stop)⟩ :=
        if_neg (Position.not_endOf_take_lt hlt.le hle)
      dsimp only [Option.map_some]
      rw [Position.ofOffset?_lineStarts hstart, Position.ofOffset?_lineStarts hle,
        Position.ofOffset_lineStarts hstart, Position.ofOffset_lineStarts hle]
      simp only [bind, Except.bind, hrange]
      rw [Token.make?, if_neg (by omega), if_neg (by omega)]
      rfl

theorem tokensChecked_eq {t : Text} {cs : List Comment}
    (h : ∀ c ∈ cs, c.start < c.stop ∧ c.stop ≤ t.length) :
    tokensChecked (Position.lineStarts t) cs =
      .ok (cs.filterMap (tokenOf? (Position.lineStarts t))) := by
  induction cs with
  | nil => rfl
  | cons c cs ih =>
      obtain ⟨hhead, htail⟩ := List.forall_mem_cons.mp h
      rw [tokensChecked, tokenChecked_eq hhead.1 hhead.2, ih htail, List.filterMap_cons]
      cases tokenOf? (Position.lineStarts t) c <;> rfl

theorem scanChecked_eq (t : Text) : scanChecked t = .ok (scan t) := by
  obtain ⟨-, hwithin⟩ := pairwise_commentsFrom 0 t
  refine tokensChecked_eq fun c hc => ?_
  obtain ⟨-, hlt, hle⟩ := hwithin c hc
  exact ⟨hlt, by omega⟩

end Marker

theorem Segment.buildCheckedFrom_eq {side : Side} {text : Text} {tokens : List Token}
    (hpairwise : tokens.Pairwise Token.Precedes) :
    ∀ {opened : Option Token} {seen : List Text} {cursor : Nat},
      (∀ first ∈ opened, ∀ token ∈ tokens, first.Precedes token) →
      buildCheckedFrom side text seen cursor opened tokens =
        .ok (buildFrom side text seen cursor opened tokens) := by
  induction tokens with
  | nil => intro opened seen cursor _; cases opened <;> rfl
  | cons token tokens ih =>
      obtain ⟨hnext, hrest⟩ := List.pairwise_cons.mp hpairwise
      intro opened seen cursor hopened
      cases opened with
      | none =>
          rw [buildCheckedFrom, buildFrom]
          split
          · split
            · rfl
            · exact ih hrest fun first hfirst => Option.some.inj hfirst ▸ hnext
          · split
            · rfl
            · exact ih hrest (by simp)
      | some first =>
          have hfirst := hopened first rfl
          rw [buildCheckedFrom, buildFrom]
          split
          · rfl
          · split
            · have hrange : Range.make? first.span.stop token.position =
                  .ok ⟨first.span.stop, token.position⟩ :=
                if_neg (hfirst token List.mem_cons_self)
              rw [hrange, ih hrest (by simp)]
              rfl
            · refine ih hrest fun first' hfirst' token' htoken' => ?_
              exact Option.some.inj hfirst' ▸ hfirst token' (List.mem_cons_of_mem _ htoken')

/-- Every offset of a text has a place, which is a count of what stands before it, and places go up
with offsets. So reading a text for markers, as a template or as a page makes no place, range or
token that is refused. -/
theorem places_counted (t : Text) :
    (∀ offset ≤ t.length, Position.ofOffset? (Position.lineStarts t) offset =
        .ok (Position.ofOffset (Position.lineStarts t) offset) ∧
      Position.ofOffset (Position.lineStarts t) offset = Position.endOf (t.take offset)) ∧
    (∀ offset offset', offset < offset' → offset' ≤ t.length →
      Position.ofOffset (Position.lineStarts t) offset <
        Position.ofOffset (Position.lineStarts t) offset') ∧
    Marker.scanChecked t = .ok (Marker.scan t) ∧
    ∀ source, Template.buildChecked t source = .ok (Template.build t source) ∧
      Page.buildChecked t source = .ok (Page.build t source) := by
  have hsegments : ∀ side, Segment.buildCheckedFrom side t [] 0 none (Marker.scan t) =
      .ok (Segment.build side t (Marker.scan t)) := fun side =>
    Segment.buildCheckedFrom_eq (Marker.pairwise_precedes_scan t) (by simp)
  refine ⟨fun offset hle => ⟨?_, Position.ofOffset_lineStarts hle⟩, fun offset offset' hlt hle => ?_,
    Marker.scanChecked_eq t, fun source => ⟨?_, ?_⟩⟩
  · rw [Position.ofOffset?_lineStarts hle, Position.ofOffset_lineStarts hle]
  · rw [Position.ofOffset_lineStarts hle, Position.ofOffset_lineStarts (hlt.le.trans hle)]
    exact Position.endOf_take_lt hlt hle
  · rw [Template.buildChecked, Marker.scanChecked_eq]
    simp only [bind, Except.bind, hsegments]
    rfl
  · rw [Page.buildChecked, Marker.scanChecked_eq, Page.build]
    simp only [bind, Except.bind, hsegments]
    cases Page.bindingOf (Marker.scan t) <;> rfl

/-- A region that begins on one line and ends on the next. -/
def brokenRegion : Text :=
  "\n<!-- TemplateBeginEditable name=\"a\" -->\nx<!-- TemplateEndEditable -->"

theorem places_counted_brokenRegion : 40 ≤ brokenRegion.length ∧
    Position.ofOffset (Position.lineStarts brokenRegion) 40 = ⟨1, 39⟩ ∧
    Position.ofOffset (Position.lineStarts brokenRegion) 40 <
      Position.ofOffset (Position.lineStarts brokenRegion) 41 ∧
    ∃ template, Template.buildChecked brokenRegion [] = .ok (.ok template) ∧
      template.segments.filter Segment.isRegion = [.region "a" "\nx" ⟨⟨1, 39⟩, ⟨2, 1⟩⟩] := by
  obtain ⟨hplaces, hlt, -, hbuild⟩ := places_counted brokenRegion
  have hrun : ((Template.build brokenRegion []).toOption.map fun template =>
      template.segments.filter Segment.isRegion) = some [.region "a" "\nx" ⟨⟨1, 39⟩, ⟨2, 1⟩⟩] := by
    decide +kernel
  refine ⟨by decide +kernel, ?_, hlt 40 41 (by decide) (by decide +kernel), ?_⟩
  · rw [(hplaces 40 (by decide +kernel)).2]
    decide +kernel
  · obtain ⟨htemplate, -⟩ := hbuild []
    cases htext : Template.build brokenRegion [] with
    | error fault => rw [htext] at hrun; cases hrun
    | ok template =>
        rw [htext] at hrun
        exact ⟨template, by rw [htemplate, htext], Option.some.inj hrun⟩

end Stencil
