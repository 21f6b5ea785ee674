import Stencil.Proofs.Merge.Content
import Stencil.Proofs.Tag.Inlays

/-!
# What a merged page is made of

The template owns the skeleton of a page. A merged page is the template, written as a page and
filled with the page's contents (`filled`), and nothing of the page but its two binding comments
comes in. Each of them stands at a seam, so it cuts no region, and neither cuts the other
(`merge_filled`). That is plain as long as they go to different literals. In the same literal, the
end of the binding was written right before a closing tag when the place of the binding is looked
for, so no start tag ends in it (`Tag.startsOf_inlay`).
-/

namespace Stencil

open Marker

namespace Marker

/-- Comments that end a binding say nothing else. -/
theorem isBare_of_bindingEnd {body : Text} (h : kind? body = some .bindingEnd) : IsBare body := by
  obtain ⟨attributes, hclass⟩ := kind?_eq_some_iff.mp h
  obtain ⟨word, rest, hfirst, -, hrest, -⟩ := classify_eq_some_iff.mp hclass
  obtain ⟨gap, rfl, hgap, hword, -⟩ := firstWord?_eq_some_iff.mp hfirst
  have hblank : ∀ {t : Text}, t.isBlank = true → IsBare t := fun ht =>
    ⟨Text.not_mem_of_isBlank ht (by decide), Text.not_mem_of_isBlank ht (by decide)⟩
  rw [isBare_append_iff, isBare_append_iff]
  exact ⟨hblank hgap, hword.isBare, hblank hrest⟩

end Marker

/-- A place in the text of segments that cuts no region: inside a literal or at an edge of one, or
at an edge of the whole text. -/
inductive Seam (segments : List Segment) (before behind : Text) : Prop
  | first (before_eq : before = []) (behind_eq : behind = Segment.join segments)
  | last (before_eq : before = Segment.join segments) (behind_eq : behind = [])
  | literal (front : List Segment) (left right : Text) (back : List Segment)
      (segments_eq : segments = front ++ .literal (left ++ right) :: back)
      (before_eq : before = Segment.join front ++ left)
      (behind_eq : behind = right ++ Segment.join back)

/-- The text of segments with a text put in at a seam. -/
def HoldsOne (segments : List Segment) (inlay text : Text) : Prop :=
  ∃ u v, Seam segments u v ∧ text = u ++ (inlay ++ v)

/-- The text of segments with two texts put in at seams, in this order. -/
def HoldsBoth (segments : List Segment) (inlay inlay' text : Text) : Prop :=
  ∃ u v w, Seam segments u (v ++ w) ∧ Seam segments (u ++ v) w ∧
    text = u ++ (inlay ++ (v ++ (inlay' ++ w)))

namespace Assembly

/-- Segments laid as pieces, and pieces behind them that are no skeleton. -/
def ofSegmentsAnd (segments : List Segment) (tail : List Text) : Assembly :=
  ⟨segments.map Segment.text ++ tail, skeletonFrom 0 segments⟩

theorem ofSegmentsAnd_nil (segments : List Segment) :
    ofSegmentsAnd segments [] = ofSegments segments := by
  rw [ofSegmentsAnd, List.append_nil, ofSegments]

section Spots

variable {segments : List Segment} {tail : List Text} {tag : Text} {spot : Spot}

/-- A spot in the skeleton cuts a literal, and a text written there goes between the parts. -/
theorem exists_literal_of_spot {find : Text → List Nat} (hnil : find [] = [])
    (hle : ∀ t, ∀ n ∈ find t, n ≤ t.length)
    (h : spot ∈ ((ofSegmentsAnd segments tail).spots find).flatten) :
    ∃ front left right back, segments = front ++ .literal (left ++ right) :: back ∧
      left.length ∈ find (left ++ right) ∧
      ∀ inlay, (ofSegmentsAnd segments tail).insertAt spot inlay =
        ofSegmentsAnd (front ++ .literal (left ++ (inlay ++ right)) :: back) tail := by
  obtain ⟨hmem, pieces, piece, others, hpieces, hpiece, hoffset⟩ := exists_of_mem_spots hnil h
  have hlength : (piece.take spot.offset).length = spot.offset :=
    (List.length_take ..).trans (Nat.min_eq_left (hle _ _ hoffset))
  have hcuts : (ofSegmentsAnd segments tail).Cuts spot pieces (piece.take spot.offset)
      (piece.drop spot.offset) others :=
    ⟨by rw [hpieces, List.take_append_drop], hpiece, hlength.symm⟩
  obtain ⟨front, back, hsegments, rfl, rfl⟩ := exists_literal_of_cuts hcuts hmem
  refine ⟨front, _, _, back, hsegments, ?_, fun inlay => ?_⟩
  · rwa [List.take_append_drop, hlength]
  · have hregions : segments.map Segment.isRegion = (front ++ .literal
        (piece.take spot.offset ++ (inlay ++ piece.drop spot.offset)) :: back).map
          Segment.isRegion := by
      rw [hsegments]
      simp [Segment.isRegion]
    rw [hcuts.insertAt_eq, ofSegmentsAnd, ofSegmentsAnd, skeletonFrom_congr hregions 0]
    simp [Segment.text]

theorem text_ofSegmentsAnd (segments : List Segment) (tail : List Text) :
    (ofSegmentsAnd segments tail).text = Segment.join segments ++ tail.flatten := by
  rw [text, ofSegmentsAnd, List.flatten_append, Segment.join, List.flatMap_def]

end Spots

/-- A single comment goes to a seam. -/
theorem holdsOne_placeBinding (segments : List Segment) (raw : Text) {anchor : Anchor}
    (hgap : anchor.gap.isBlank = true) : ∃ gap : Text, gap.isBlank = true ∧
      HoldsOne segments (gap ++ raw) ((ofSegments segments).placeBinding raw anchor).text := by
  obtain ⟨gap, hblank, hplace⟩ := (ofSegments segments).placeBinding_eq raw hgap
  refine ⟨gap, hblank, ?_⟩
  rw [hplace]
  cases hspot : (ofSegments segments).bindingSpot? anchor with
  | none => exact ⟨[], _, .first rfl rfl, by rw [← text_ofSegments]; rfl⟩
  | some spot =>
      obtain ⟨tag, hmem⟩ := exists_of_bindingSpot? hspot
      rw [← ofSegmentsAnd_nil] at hmem ⊢
      obtain ⟨front, left, right, back, hsegments, -, hinsert⟩ := exists_literal_of_spot rfl
        (fun t n hn => ((Tag.startsOf_bounds tag t).1 n hn).2) hmem
      refine ⟨_, _, .literal front left right back hsegments rfl rfl, ?_⟩
      dsimp only
      rw [hinsert, text_ofSegmentsAnd]
      simp [Segment.text]

/-- Two ways to take a list apart at an element. -/
theorem append_cons_cases {α : Type} {front front' back back' : List α} {x x' : α}
    (h : front ++ x :: back = front' ++ x' :: back') :
    (∃ mid, front = front' ++ x' :: mid ∧ back' = mid ++ x :: back) ∨
      (front = front' ∧ x = x' ∧ back = back') ∨
      ∃ mid, front' = front ++ x :: mid ∧ back = mid ++ x' :: back' := by
  rcases List.append_eq_append_iff.mp h with ⟨m, hfront, hback⟩ | ⟨m, hfront, hback⟩
  · cases m with
    | nil =>
        obtain ⟨rfl, rfl⟩ := List.cons.inj hback
        exact Or.inr (Or.inl ⟨by rw [hfront, List.append_nil], rfl, rfl⟩)
    | cons y mid =>
        obtain ⟨rfl, rfl⟩ := List.cons.inj hback
        exact Or.inr (Or.inr ⟨mid, hfront, rfl⟩)
  · cases m with
    | nil =>
        obtain ⟨rfl, rfl⟩ := List.cons.inj hback
        exact Or.inr (Or.inl ⟨by rw [hfront, List.append_nil], rfl, rfl⟩)
    | cons y mid =>
        obtain ⟨rfl, rfl⟩ := List.cons.inj hback
        exact Or.inl ⟨mid, hfront, rfl⟩

/-- The binding goes to a seam, too, where its end was written before a closing tag. -/
theorem holdsBoth_of_closing {segments front back : List Segment} {left right tag body gapEnd : Text}
    (hsegments : segments = front ++ .literal (left ++ right) :: back)
    (hclosing : left.length ∈ Tag.closingsOf tag (left ++ right)) (hbare : IsBare body)
    (hblank : gapEnd.isBlank = true) {start inlay : Text} {spot : Spot}
    (hspot : spot ∈ ((ofSegmentsAnd
      (front ++ .literal (left ++ ((wrap body ++ gapEnd) ++ right)) :: back) []).startSpots
        start).flatten) :
    HoldsBoth segments inlay (wrap body ++ gapEnd) ((ofSegmentsAnd (front ++
        .literal (left ++ ((wrap body ++ gapEnd) ++ right)) :: back) []).insertAt spot inlay).text ∨
      HoldsBoth segments (wrap body ++ gapEnd) inlay ((ofSegmentsAnd (front ++
        .literal (left ++ ((wrap body ++ gapEnd) ++ right)) :: back) []).insertAt spot inlay).text := by
  obtain ⟨front', l, r, back', heq, hstart, hinsert⟩ := exists_literal_of_spot rfl
    (fun t n hn => ((Tag.startsOf_bounds start t).1 n hn).2) hspot
  rw [hinsert, text_ofSegmentsAnd, hsegments]
  rcases append_cons_cases heq with
    ⟨mid, rfl, rfl⟩ | ⟨rfl, hliteral, rfl⟩ | ⟨mid, rfl, rfl⟩
  · -- the binding goes to a literal further in front
    refine Or.inl ⟨Segment.join front' ++ l, r ++ (Segment.join mid ++ left),
      right ++ Segment.join back, ?_, ?_, ?_⟩
    · refine .literal front' l r (mid ++ .literal (left ++ right) :: back) (by simp) rfl ?_
      simp [Segment.text]
    · refine .literal (front' ++ .literal (l ++ r) :: mid) left right back rfl ?_ rfl
      simp [Segment.text]
    · simp [Segment.text]
  · -- it goes to the same literal, and no start tag ends inside the comment
    have hliteral := Segment.literal.inj hliteral
    rw [← hliteral, Tag.startsOf_inlay hclosing hbare hblank, List.mem_append] at hstart
    rcases hstart with hbefore | hbehind
    · have hle := ((Tag.startsOf_bounds start left).1 _ hbefore).2
      obtain ⟨m, rfl, rfl⟩ : ∃ m, left = l ++ m ∧ r = m ++ ((wrap body ++ gapEnd) ++ right) := by
        rcases List.append_eq_append_iff.mp hliteral with ⟨m, hl, hr⟩ | ⟨m, hl, hr⟩
        · have hnil : m = [] := List.length_eq_zero_iff.mp (by
            have := congrArg List.length hl
            rw [List.length_append] at this
            omega)
          subst hnil
          exact ⟨[], by rw [hl, List.append_nil, List.append_nil], hr.symm⟩
        · exact ⟨m, hl, hr⟩
      refine Or.inl ⟨Segment.join front ++ l, m, right ++ Segment.join back, ?_, ?_, ?_⟩
      · exact .literal front l (m ++ right) back (by simp) rfl (by simp)
      · exact .literal front (l ++ m) right back rfl (by simp) rfl
      · simp [Segment.text]
    · obtain ⟨n, -, hn⟩ := List.mem_map.mp hbehind
      obtain ⟨m, rfl, rfl⟩ : ∃ m, l = left ++ ((wrap body ++ gapEnd) ++ m) ∧ right = m ++ r := by
        rw [← List.append_assoc left] at hliteral
        rcases List.append_eq_append_iff.mp hliteral with ⟨m, hl, hr⟩ | ⟨m, hl, hr⟩
        · exact ⟨m, by rw [hl, List.append_assoc], hr⟩
        · have hnil : m = [] := List.length_eq_zero_iff.mp (by
            have := congrArg List.length hl
            simp only [List.length_append] at this hn
            omega)
          subst hnil
          refine ⟨[], ?_, hr.symm⟩
          rw [List.append_nil] at hl
          rw [List.append_nil, hl]
      refine Or.inr ⟨Segment.join front ++ left, m, r ++ Segment.join back, ?_, ?_, ?_⟩
      · exact .literal front left (m ++ r) back rfl rfl (by simp)
      · exact .literal front (left ++ m) r back (by simp) (by simp) rfl
      · simp [Segment.text]
  · -- the binding goes to a literal further behind
    refine Or.inr ⟨Segment.join front ++ left, right ++ (Segment.join mid ++ l),
      r ++ Segment.join back', ?_, ?_, ?_⟩
    · refine .literal front left right (mid ++ .literal (l ++ r) :: back') rfl rfl ?_
      simp [Segment.text]
    · refine .literal (front ++ .literal (left ++ right) :: mid) l r back' (by simp) ?_ rfl
      simp [Segment.text]
    · simp [Segment.text]

/-- Both comments go to seams, and neither goes into the other. -/
theorem holdsBoth_placeBinding (segments : List Segment) (raw : Text) {body : Text}
    (hbare : IsBare body) {anchor anchorEnd : Anchor} (hgap : anchor.gap.isBlank = true)
    (hgapEnd : anchorEnd.gap.isBlank = true) :
    ∃ gap gapEnd : Text, gap.isBlank = true ∧ gapEnd.isBlank = true ∧
      (HoldsBoth segments (gap ++ raw) (wrap body ++ gapEnd)
          (((ofSegments segments).placeBindingEnd (wrap body) anchorEnd).placeBinding raw
            anchor).text ∨
        HoldsBoth segments (wrap body ++ gapEnd) (gap ++ raw)
          (((ofSegments segments).placeBindingEnd (wrap body) anchorEnd).placeBinding raw
            anchor).text) := by
  obtain ⟨gapEnd, hblankEnd, hplaceEnd⟩ :=
    (ofSegments segments).placeBindingEnd_eq (wrap body) hgapEnd
  obtain ⟨gap, hblank, hplace⟩ :=
    ((ofSegments segments).placeBindingEnd (wrap body) anchorEnd).placeBinding_eq raw hgap
  refine ⟨gap, gapEnd, hblank, hblankEnd, ?_⟩
  rw [hplace]
  cases hspotEnd : (ofSegments segments).bindingEndSpot? anchorEnd with
  | none =>
      -- the end of the binding is a piece behind all segments
      have hended : (ofSegments segments).placeBindingEnd (wrap body) anchorEnd =
          ofSegmentsAnd segments [wrap body ++ gapEnd] := by
        rw [hplaceEnd, hspotEnd]
        rfl
      rw [hended]
      refine Or.inl ?_
      cases hspot : (ofSegmentsAnd segments [wrap body ++ gapEnd]).bindingSpot? anchor with
      | none =>
          refine ⟨[], Segment.join segments, [], .first rfl (List.append_nil _),
            .last rfl rfl, ?_⟩
          rw [text_prepend, text_ofSegmentsAnd]
          simp
      | some spot =>
          obtain ⟨tag, hmem⟩ := exists_of_bindingSpot? hspot
          obtain ⟨front, left, right, back, hsegments, -, hinsert⟩ := exists_literal_of_spot rfl
            (fun t n hn => ((Tag.startsOf_bounds tag t).1 n hn).2) hmem
          refine ⟨_, right ++ Segment.join back, [], .literal front left right back hsegments rfl
            (List.append_nil _), .last ?_ rfl, ?_⟩
          · rw [hsegments]
            simp [Segment.text]
          · dsimp only
            rw [hinsert, text_ofSegmentsAnd]
            simp [Segment.text]
  | some spotEnd =>
      obtain ⟨tag, hmem⟩ := exists_of_bindingEndSpot? hspotEnd
      rw [← ofSegmentsAnd_nil] at hmem
      obtain ⟨front, left, right, back, hsegments, hclosing, hinsert⟩ := exists_literal_of_spot rfl
        (fun t n hn => Tag.closingsOf_le hn) hmem
      have hended : (ofSegments segments).placeBindingEnd (wrap body) anchorEnd = ofSegmentsAnd
          (front ++ .literal (left ++ ((wrap body ++ gapEnd) ++ right)) :: back) [] := by
        rw [hplaceEnd, hspotEnd, ← ofSegmentsAnd_nil]
        exact hinsert _
      rw [hended]
      cases hspot : (ofSegmentsAnd (front ++
          .literal (left ++ ((wrap body ++ gapEnd) ++ right)) :: back) []).bindingSpot? anchor with
      | none =>
          refine Or.inl ⟨[], Segment.join front ++ left, right ++ Segment.join back,
            .first rfl ?_, .literal front left right back hsegments rfl rfl, ?_⟩
          · rw [hsegments]
            simp [Segment.text]
          · rw [text_prepend, text_ofSegmentsAnd]
            simp [Segment.text]
      | some spot =>
          obtain ⟨start, hstart⟩ := exists_of_bindingSpot? hspot
          exact holdsBoth_of_closing hsegments hclosing hbare hblankEnd hstart

end Assembly

namespace Merge

/-- A segment of a template as a page has it: a literal in the words of pages, and in a region what
the page has in it, or else what the template has. -/
def fill (page : Page) : Segment → Segment
  | .literal text => .literal (Skeleton.toPage page.params text)
  | .region name default span =>
    .region name ((Segment.region? page.segments name).getD default) span

/-- The segments of a template as a page has them. -/
def filled (template : Template) (page : Page) : List Segment := template.segments.map (fill page)

theorem assemble_eq_filled {text source : Text} {page : Page}
    (h : Page.build text source = .ok page) (template : Template) :
    (assemble template (Segment.contents page.segments) page.params).1 =
      Assembly.ofSegments (filled template page) := by
  rw [assemble_eq, filled]
  refine congrArg Assembly.ofSegments (List.map_congr_left fun segment _ => ?_)
  cases segment with
  | literal text => rfl
  | region name default span => rw [laySegment, fill, layRegion_eq h]

end Merge

/-- A merged page is the template as the page has it, with the page's binding put in at a seam,
blanks before it, and also the end of the binding, if there is one, with blanks behind it. -/
theorem merge_filled {text source : Text} {page : Page} (h : Page.build text source = .ok page)
    (template : Template) : ∃ gap gapEnd : Text, gap.isBlank = true ∧ gapEnd.isBlank = true ∧
      (page.bindingEnd? = none → HoldsOne (Merge.filled template page) (gap ++ page.binding.raw)
        (merge template page).text) ∧
      ∀ bindingEnd, page.bindingEnd? = some bindingEnd →
        HoldsBoth (Merge.filled template page) (gap ++ page.binding.raw) (bindingEnd.raw ++ gapEnd)
            (merge template page).text ∨
          HoldsBoth (Merge.filled template page) (bindingEnd.raw ++ gapEnd)
            (gap ++ page.binding.raw) (merge template page).text := by
  have hgap := Merge.isBlank_bindingAnchor page
  cases hend : page.bindingEnd? with
  | none =>
      obtain ⟨gap, hblank, hholds⟩ := Assembly.holdsOne_placeBinding
        (Merge.filled template page) page.binding.raw hgap
      refine ⟨gap, [], hblank, rfl, fun _ => ?_, fun bindingEnd hsome => (by cases hsome)⟩
      rw [Merge.text_merge_eq, Merge.ended, hend, Merge.assemble_eq_filled h]
      exact hholds
  | some bindingEnd =>
      obtain ⟨body, -, hkind, hraw⟩ := Page.exists_body_of_bindingEnd h hend
      obtain ⟨gap, gapEnd, hblank, hblankEnd, hholds⟩ := Assembly.holdsBoth_placeBinding
        (Merge.filled template page) page.binding.raw (isBare_of_bindingEnd hkind) hgap
        (Merge.isBlank_bindingEndAnchor page bindingEnd)
      refine ⟨gap, gapEnd, hblank, hblankEnd, fun hnone => (by cases hnone), fun other hother => ?_⟩
      obtain rfl := Option.some.inj hother
      rw [Merge.text_merge_eq, Merge.ended, hend, Merge.assemble_eq_filled h]
      dsimp only
      rw [hraw]
      exact hholds

/-- A page with both binding comments and a region. -/
def boundThroughout : Text :=
  Text.concat ["<html>\n", wrap "InstanceBegin template=\"/t.dwt\"",
    wrap "InstanceBeginEditable name=\"b\"", "mine", wrap "InstanceEndEditable", "old",
    wrap "InstanceEnd", " </html>"]

theorem merge_filled_boundThroughout : ∃ template page bindingEnd,
    Template.build twoRegions [] = .ok template ∧ Page.build boundThroughout [] = .ok page ∧
      page.bindingEnd? = some bindingEnd ∧ ∃ gap gapEnd : Text,
        gap.isBlank = true ∧ gapEnd.isBlank = true ∧
          (HoldsBoth (Merge.filled template page) (gap ++ page.binding.raw)
              (bindingEnd.raw ++ gapEnd) (merge template page).text ∨
            HoldsBoth (Merge.filled template page) (bindingEnd.raw ++ gapEnd)
              (gap ++ page.binding.raw) (merge template page).text) := by
  have hrun : passes twoRegions boundThroughout (fun _ page => page.bindingEnd?.isSome) = true := by
    rw [twoRegions, boundThroughout]
    repeat rw [Text.ofString_ofList]
    decide +kernel
  obtain ⟨template, page, htemplate, hpage, hsome⟩ := exists_of_passes hrun
  obtain ⟨bindingEnd, hend⟩ := Option.isSome_iff_exists.mp hsome
  obtain ⟨gap, gapEnd, hgap, hgapEnd, -, hboth⟩ := merge_filled hpage template
  exact ⟨template, page, bindingEnd, htemplate, hpage, hend, gap, gapEnd, hgap, hgapEnd,
    hboth bindingEnd hend⟩

end Stencil
