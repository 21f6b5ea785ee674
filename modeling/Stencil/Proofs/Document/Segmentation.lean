import Stencil.Proofs.Document.Binding

/-!
# The segments of a document

What reading a text as a document cuts it into (`Segmented`). The segments join to the text, and
literals and regions take turns, a literal at either end. The region markers of the document's own
side come in pairs, and each pair holds one region (`exists_pairs`). No marker of that side shows
up inside a region, even when the content is read by itself: `Outline.exists_outline` gives the
content as a text that is free of them.
-/

namespace Stencil

open Marker

namespace Segment

/-- Literals and regions in turns. A literal stands at either end, and none is empty. -/
inductive Alternates : List Segment → Prop
  | last {text : Text} : text ≠ [] → Alternates [.literal text]
  | region {text name content : Text} {span : Range} {rest : List Segment} : text ≠ [] →
      Alternates rest → Alternates (.literal text :: .region name content span :: rest)

/-- The region between a begin marker and an end marker of a text. -/
def between (text : Text) (pair : Token × Token) : Segment :=
  .region pair.1.name (text.slice pair.1.stop pair.2.start)
    ⟨Position.ofOffset (Position.lineStarts text) pair.1.stop,
      Position.ofOffset (Position.lineStarts text) pair.2.start⟩

/-- What a text of one side is cut into. -/
structure Segmented (side : Side) (text : Text) (segments : List Segment) : Prop where
  join_eq : join segments = text
  alternates : segments = [] ∨ Alternates segments
  names_eq : regionNames segments =
    ((scan text).filter fun token => token.kind = .regionBegin side).map (·.name)
  nodup : (regionNames segments).Nodup
  regions : ∃ pairs : List (Token × Token),
    ((scan text).filter fun token => token.kind ∈ regionKinds side) =
      (pairs.flatMap fun pair => [pair.1, pair.2]) ∧
    (∀ pair ∈ pairs, pair.1.kind = .regionBegin side ∧ pair.2.kind = .regionEnd side) ∧
    segments.filter isRegion = pairs.map (between text)
  closed : ∀ entry ∈ contents segments, Lacks (regionKinds side) entry.2

/-! ## Literals and regions -/

theorem Alternates.of_unplaced {segments : List Segment}
    (h : Alternates (segments.map unplaced)) : Alternates segments := by
  generalize hplaced : segments.map unplaced = placed at h
  induction h generalizing segments with
  | @last text hne =>
      obtain ⟨segment, rfl, hsegment⟩ := List.map_eq_singleton_iff.mp hplaced
      cases segment with
      | literal text' => exact .last (literal.inj hsegment ▸ hne)
      | region => cases hsegment
  | @region text name content span rest hne _ ih =>
      obtain ⟨first, more, rfl, hfirst, hmore⟩ := List.map_eq_cons_iff.mp hplaced
      obtain ⟨second, others, rfl, hsecond, hothers⟩ := List.map_eq_cons_iff.mp hmore
      cases first with
      | region => cases hfirst
      | literal text' =>
          cases second with
          | literal => cases hsecond
          | region => exact .region (literal.inj hfirst ▸ hne) (ih hothers)

end Segment

theorem Outline.alternates_segmentsFrom {lead : Text} (hlead : lead ≠ []) (plain : Text)
    (blocks : List Block) : Segment.Alternates (segmentsFrom lead plain blocks) := by
  induction blocks generalizing lead plain with
  | nil =>
      have hne : lead ++ plain ≠ [] := List.append_ne_nil_of_left_ne_nil hlead plain
      rw [segmentsFrom, Segment.literals, if_neg (by simpa using hne)]
      exact .last hne
  | cons b blocks ih =>
      exact .region (List.append_ne_nil_of_left_ne_nil hlead _) (ih (by simp [wrap, opener]) _)

theorem Outline.alternates_segments (o : Outline) :
    o.segments = [] ∨ Segment.Alternates o.segments := by
  obtain ⟨head, blocks⟩ := o
  rw [segments]
  cases blocks with
  | nil =>
      cases head with
      | nil => exact Or.inl rfl
      | cons g head => exact Or.inr (.last (List.cons_ne_nil g head))
  | cons b blocks =>
      refine Or.inr (.region ?_ (alternates_segmentsFrom (by simp [wrap, opener]) _ _))
      simp [wrap, opener]

namespace Segment

/-! ## Regions and their markers -/

theorem filter_isRegion_literals (t : Text) : (literals t).filter isRegion = [] := by
  unfold literals
  split <;> rfl

/-- A region as it is cut, with the places that its markers say they have. -/
def cut (text : Text) (pair : Token × Token) : Segment :=
  .region pair.1.name (text.slice pair.1.stop pair.2.start) ⟨pair.1.span.stop, pair.2.position⟩

/-- The markers come in pairs, the one that is open counted among them. -/
theorem exists_pairs {side : Side} {text : Text} {tokens : List Token} :
    ∀ {opened : Option Token} {seen : List Text} {cursor : Nat} {segments : List Segment},
      (∀ token ∈ opened, token.kind = .regionBegin side) →
      buildFrom side text seen cursor opened tokens = .ok segments →
      ∃ pairs : List (Token × Token),
        (opened.toList ++ tokens.filter fun token => token.kind ∈ regionKinds side) =
          (pairs.flatMap fun pair => [pair.1, pair.2]) ∧
        (∀ pair ∈ pairs, pair.1.kind = .regionBegin side ∧ pair.2.kind = .regionEnd side) ∧
        segments.filter isRegion = pairs.map (cut text) := by
  induction tokens with
  | nil =>
      intro opened seen cursor segments _ h
      cases opened with
      | none =>
          rw [buildFrom] at h
          obtain rfl := Except.ok.inj h
          exact ⟨[], rfl, List.forall_mem_nil _, filter_isRegion_literals _⟩
      | some opened => cases h
  | cons token tokens ih =>
      intro opened seen cursor segments hopened h
      have hother : token.kind ≠ .regionBegin side → token.kind ≠ .regionEnd side →
          ((token :: tokens).filter fun token => token.kind ∈ regionKinds side) =
            tokens.filter fun token => token.kind ∈ regionKinds side := fun hbegin hend =>
        List.filter_cons_of_neg (by simp [regionKinds, hbegin, hend])
      have hown : token.kind = .regionBegin side ∨ token.kind = .regionEnd side →
          ((token :: tokens).filter fun token => token.kind ∈ regionKinds side) =
            token :: tokens.filter fun token => token.kind ∈ regionKinds side := fun hkind =>
        List.filter_cons_of_pos (by simpa [regionKinds] using hkind)
      cases opened with
      | none =>
          rw [buildFrom] at h
          split at h
          · next hbegin =>
            split at h
            · cases h
            · rw [hown (Or.inl hbegin)]
              exact ih (fun _ ht => Option.some.inj ht ▸ hbegin) h
          · next hbegin =>
            split at h
            · cases h
            · next hend =>
              rw [hother hbegin hend]
              exact ih (by simp) h
      | some first =>
          rw [buildFrom] at h
          split at h
          · cases h
          · next hbegin =>
            split at h
            · next hend =>
              obtain ⟨rest, hrest, rfl⟩ := exists_ok_of_map_ok h
              obtain ⟨pairs, hpairs, hkinds, hregions⟩ := ih (by simp) hrest
              refine ⟨(first, token) :: pairs, ?_, ?_, ?_⟩
              · rw [hown (Or.inr hend), List.flatMap_cons, ← hpairs]
                rfl
              · intro pair hpair
                rcases List.mem_cons.mp hpair with rfl | hpair
                · exact ⟨hopened _ rfl, hend⟩
                · exact hkinds pair hpair
              · rw [List.filter_append, filter_isRegion_literals, List.map_cons, ← hregions]
                rfl
            · next hend =>
              rw [hother hbegin hend]
              exact ih hopened h

/-- The places that a marker says it has are those of its offsets. -/
theorem cut_eq_between {text : Text} {pair : Token × Token} (hbegin : pair.1 ∈ scan text)
    (hend : pair.2 ∈ scan text) : cut text pair = between text pair := by
  have hspan : ∀ token ∈ scan text, token.span =
      ⟨Position.ofOffset (Position.lineStarts text) token.start,
        Position.ofOffset (Position.lineStarts text) token.stop⟩ := by
    intro token htoken
    obtain ⟨c, -, htoken⟩ := List.mem_filterMap.mp htoken
    obtain ⟨⟨kind, attributes⟩, -, rfl⟩ := Option.map_eq_some_iff.mp htoken
    rfl
  rw [cut, between, Token.position, hspan _ hbegin, hspan _ hend]

theorem regionNames_filter (segments : List Segment) :
    regionNames (segments.filter isRegion) = regionNames segments := by
  induction segments with
  | nil => rfl
  | cons segment segments ih =>
      cases segment with
      | literal t => exact ih
      | region name content span => exact congrArg (List.cons name) ih

/-- The first markers of the pairs are the begin markers. -/
theorem filter_pairs {side : Side} {pairs : List (Token × Token)}
    (h : ∀ pair ∈ pairs, pair.1.kind = .regionBegin side ∧ pair.2.kind = .regionEnd side) :
    ((pairs.flatMap fun pair => [pair.1, pair.2]).filter
      fun token => token.kind = .regionBegin side) = pairs.map Prod.fst := by
  induction pairs with
  | nil => rfl
  | cons pair pairs ih =>
      obtain ⟨hbegin, hend⟩ := h pair List.mem_cons_self
      have ih := ih fun pair' hpair' => h pair' (List.mem_cons_of_mem _ hpair')
      rw [List.flatMap_cons, List.filter_append, ih]
      simp [hbegin, hend]

theorem segmented_of_build {side : Side} {text : Text} {segments : List Segment}
    (h : build side text (scan text) = .ok segments) : Segmented side text segments := by
  obtain ⟨o, hfit, htext, hunplaced⟩ := Outline.exists_outline h
  obtain ⟨pairs, hpairs, hkinds, hregions⟩ := exists_pairs (by simp) h
  rw [Option.toList_none, List.nil_append] at hpairs
  have hmem : ∀ pair ∈ pairs, cut text pair = between text pair := by
    intro pair hpair
    have hscan : ∀ token ∈ [pair.1, pair.2], token ∈ scan text := fun token htoken =>
      (List.mem_filter.mp (hpairs ▸ List.mem_flatMap.mpr ⟨pair, hpair, htoken⟩)).1
    exact cut_eq_between (hscan _ (by simp)) (hscan _ (by simp))
  rw [List.map_congr_left hmem] at hregions
  have hnames : regionNames segments = pairs.map fun pair => pair.1.name := by
    rw [← regionNames_filter, hregions, regionNames, List.filterMap_map]
    exact congrFun List.filterMap_eq_map pairs
  refine ⟨?_, ?_, ?_, ?_, ⟨pairs, hpairs, hkinds, hregions⟩, ?_⟩
  · rw [← htext, ← Outline.join_segments, ← hunplaced, join_map_unplaced]
  · rcases o.alternates_segments with hnil | halternates
    · rw [← hunplaced, List.map_eq_nil_iff] at hnil
      exact Or.inl hnil
    · exact Or.inr (Alternates.of_unplaced (hunplaced ▸ halternates))
  · have hbegins : ((scan text).filter fun token => token.kind = .regionBegin side) =
        pairs.map Prod.fst := by
      rw [← filter_pairs hkinds, ← hpairs, List.filter_filter]
      refine List.filter_congr fun token _ => ?_
      by_cases hkind : token.kind = .regionBegin side <;> simp [hkind, regionKinds]
    rw [hnames, hbegins, List.map_map]
    rfl
  · rw [← regionNames_map_unplaced, hunplaced, Outline.regionNames_segments]
    exact hfit.nodup
  · intro entry hentry
    rw [← contents_map_unplaced, hunplaced, Outline.contents_segments] at hentry
    obtain ⟨b, hb, rfl⟩ := List.mem_map.mp hentry
    exact lacks_iff.mpr (hfit.blocks_fit b hb).content_free

end Segment

/-- A text that is accepted as a template or as a page is cut without loss, and its regions are
closed. -/
theorem build_segmented (text source : Text) :
    (∀ template, Template.build text source = .ok template →
      Segment.Segmented .template text template.segments) ∧
    ∀ page, Page.build text source = .ok page → Segment.Segmented .page text page.segments := by
  refine ⟨fun template h => ?_, fun page h => ?_⟩
  · rw [Template.build] at h
    obtain ⟨segments, hbuild, rfl⟩ := exists_ok_of_map_ok h
    exact Segment.segmented_of_build hbuild
  · rw [Page.build_of_bound (Page.bindingOf_of_build h)] at h
    obtain ⟨segments, hbuild, hpage⟩ := exists_ok_of_map_ok h
    rw [← hpage]
    exact Segment.segmented_of_build hbuild

/-- A template whose region holds an opener that is never closed. -/
def openContent : Text :=
  Text.concat ["<p>", wrap "TemplateBeginEditable name=\"a\"", "<!-- ", wrap "TemplateEndEditable",
    "</p>"]

theorem build_openContent : ∃ template, Template.build openContent [] = .ok template ∧
    Segment.Segmented .template openContent template.segments ∧
      Segment.contents template.segments = [(.ofString "a", .ofString "<!-- ")] := by
  have hrun : ((Template.build openContent []).toOption.map fun template =>
      Segment.contents template.segments) = some [(.ofString "a", .ofString "<!-- ")] := by decide +kernel
  cases hbuild : Template.build openContent [] with
  | error fault => rw [hbuild] at hrun; cases hrun
  | ok template =>
      rw [hbuild] at hrun
      exact ⟨template, rfl, (build_segmented openContent []).1 template hbuild,
        Option.some.inj hrun⟩

end Stencil
