import Stencil.Proofs.Merge.Binding
import Stencil.Proofs.Merge.Layout

/-!
# The contents of a merged page

A page merged with a clean template is a page: bound as before, with the regions of the template
and, in each of them, its own content if it had any (`build_merge`). The proof follows the merge
through outlines. The template is laid out as an outline (`ofSegments_layOutline`), the end of the
binding is written into one of its plain stretches or behind everything (`exists_ended`), the
binding into the stretch before the first region (`exists_merged`).
-/

namespace Stencil

open Marker

namespace Marker

/-- No marker of a text holds angle brackets but those of its delimiters. -/
def BareMarkers (t : Text) : Prop :=
  ∀ token ∈ scan t, Glyph.char '<' ∉ token.raw.tail ∧ Glyph.char '>' ∉ token.raw.dropLast

instance (t : Text) : Decidable (BareMarkers t) :=
  inferInstanceAs (Decidable (∀ token ∈ scan t, _ ∧ _))

theorem BareMarkers.isBare {t body : Text} {kind : Kind} (h : BareMarkers t) (hb : body ∈ bodies t)
    (hkind : kind? body = some kind) : IsBare body := by
  obtain ⟨token, htoken, -, hraw⟩ :=
    exists_token_of_mem_bodies (Position.lineStarts t) 0 hb hkind
  have htail : (wrap body).tail =
      [Glyph.char '!', .char '-', .char '-'] ++ (body ++ closer) := by simp [wrap, opener]
  have hinit : (wrap body).dropLast = opener ++ (body ++ [Glyph.char '-', .char '-']) := by
    have : wrap body = (opener ++ (body ++ [Glyph.char '-', .char '-'])) ++ [.char '>'] := by
      simp [wrap, closer]
    rw [this, List.dropLast_concat]
  have hbare := h token htoken
  rw [hraw, htail, hinit] at hbare
  exact ⟨fun hm => hbare.1 (by simp [hm]), fun hm => hbare.2 (by simp [hm])⟩

end Marker

namespace Outline

theorem Gains.bare {w : Text} {o o' : Outline} (h : Gains w o o') (hbare : Bare o.blocks) :
    Bare o'.blocks := by
  induction h with
  | head left right blocks => exact hbare
  | behind head opening content closing h ih =>
      intro b hb
      have hfirst := hbare _ List.mem_cons_self
      rcases List.mem_cons.mp hb with rfl | hb
      · exact hfirst
      · exact ih (fun b hb => hbare b (List.mem_cons_of_mem _ hb)) b hb

end Outline

namespace Merge

theorem unplaced_laySegment (contents : List (Text × Text)) (params : List Param)
    (segment : Segment) : (laySegment contents params segment).unplaced =
      laySegment contents params segment.unplaced := by
  cases segment <;> rfl

theorem ofSegments_unplaced (segments : List Segment) :
    Assembly.ofSegments (segments.map Segment.unplaced) = Assembly.ofSegments segments := by
  have htext : (segments.map Segment.unplaced).map Segment.text = segments.map Segment.text := by
    rw [List.map_map]
    exact List.map_congr_left fun segment _ => by cases segment <;> rfl
  have hregion : (segments.map Segment.unplaced).map Segment.isRegion =
      segments.map Segment.isRegion := by
    rw [List.map_map]
    exact List.map_congr_left fun segment _ => by cases segment <;> rfl
  have hskeleton := Assembly.skeletonFrom_congr hregion 0
  rw [Assembly.ofSegments, Assembly.ofSegments, htext, hskeleton]

/-- The kinds of markers that settle what a page is bound to. -/
def settling : List Kind := [.binding, .regionBegin .page, .regionEnd .page]

/-- Marker comments of the template, its literals, the values of the page and the place of the
binding are such that merging leaves a page. -/
structure Clean (text : Text) (template : Template) (page : Page) : Prop where
  lacks : Lacks settling text
  undescribed : ∀ segment ∈ template.segments, segment.isRegion = false →
    Skeleton.infoForm.findAll segment.text = []
  bareMarkers : BareMarkers text
  values : Skeleton.AreValues page.params
  place : Lacks [.regionBegin .page] (lead template page)

instance (text : Text) (template : Template) (page : Page) :
    Decidable (Clean text template page) :=
  decidable_of_iff (Lacks settling text ∧ (∀ segment ∈ template.segments,
      segment.isRegion = false → Skeleton.infoForm.findAll segment.text = []) ∧
      BareMarkers text ∧ Skeleton.AreValues page.params ∧
      Lacks [.regionBegin .page] (lead template page))
    ⟨fun ⟨h₁, h₂, h₃, h₄, h₅⟩ => ⟨h₁, h₂, h₃, h₄, h₅⟩,
      fun ⟨h₁, h₂, h₃, h₄, h₅⟩ => ⟨h₁, h₂, h₃, h₄, h₅⟩⟩

/-! ## The template as an outline -/

theorem exists_outline_of_template {text source : Text} {template : Template}
    (h : Template.build text source = .ok template) : ∃ o : Outline, o.Fits .template ∧
      o.text = text ∧ template.segments.map Segment.unplaced = o.segments := by
  rw [Template.build] at h
  obtain ⟨segments, hbuild, rfl⟩ := exists_ok_of_map_ok h
  exact Outline.exists_outline hbuild

theorem exists_outline_of_page {text source : Text} {page : Page}
    (h : Page.build text source = .ok page) : ∃ o : Outline, o.Fits .page ∧
      o.text = text ∧ page.segments.map Segment.unplaced = o.segments := by
  rw [Page.build_of_bound (Page.bindingOf_of_build h)] at h
  obtain ⟨segments, hbuild, hpage⟩ := exists_ok_of_map_ok h
  rw [← hpage]
  exact Outline.exists_outline hbuild

theorem bare_of_bareMarkers {o : Outline} (hfit : o.Fits .template) (h : BareMarkers o.text) :
    Outline.Bare o.blocks := by
  intro b hb
  obtain ⟨u, v, htext⟩ := Outline.exists_text_eq hb
  have hblock := hfit.blocks_fit b hb
  have hopening : b.opening ∈ bodies o.text := by
    rw [htext, Block.text, List.append_assoc, bodies_insert _ hblock.opening_isBody]
    simp
  have hclosing : b.closing ∈ bodies o.text := by
    rw [htext, Block.text, List.append_assoc, bodies_insert _ hblock.opening_isBody]
    refine List.mem_append_right _ (List.mem_cons_of_mem _ ?_)
    rw [List.append_assoc, List.append_assoc, bodies_insert _ hblock.closing_isBody]
    simp
  exact ⟨h.isBare hopening hblock.opening_kind, h.isBare hclosing hblock.closing_kind⟩

theorem free_contents {text source : Text} {page : Page} (h : Page.build text source = .ok page) :
    ∀ entry ∈ Segment.contents page.segments, Free .page entry.2 := by
  obtain ⟨o, hfit, -, hsegments⟩ := exists_outline_of_page h
  intro entry hentry
  rw [← Segment.contents_map_unplaced, hsegments, Outline.contents_segments] at hentry
  obtain ⟨b, hb, rfl⟩ := List.mem_map.mp hentry
  exact (hfit.blocks_fit b hb).content_free

/-! ## The end of the binding -/

/-- An assembly that lays an outline, and perhaps one more piece. -/
structure Lays (a : Assembly) (o : Outline) (tail : List Text) : Prop where
  pieces_eq : a.pieces = o.segments.map Segment.text ++ tail
  skeleton_eq : a.skeleton = Assembly.skeletonFrom 0 o.segments

theorem Lays.text_eq {a : Assembly} {o : Outline} {tail : List Text} (h : Lays a o tail) :
    a.text = o.text ++ tail.flatten := by
  rw [Assembly.text, h.pieces_eq, List.flatten_append, ← Outline.join_segments, Segment.join,
    List.flatMap_def]

/-- What is laid for a page before its binding is placed: the outline, with the end of the binding
in one of its plain stretches or in a piece behind it. -/
theorem exists_ended {a : Assembly} {o : Outline} (h : Lays a o []) (hbare : Outline.Bare o.blocks)
    {body : Text} (hbody : IsBody body) {anchor : Anchor} (hgap : anchor.gap.isBlank = true) :
    ∃ inlay, IsInlay body inlay ∧
      ((∃ o', Outline.Gains inlay o o' ∧ Lays (a.placeBindingEnd (wrap body) anchor) o' []) ∨
        Lays (a.placeBindingEnd (wrap body) anchor) o [inlay]) := by
  obtain ⟨gap, hblank, hplace⟩ := a.placeBindingEnd_eq (wrap body) hgap
  refine ⟨wrap body ++ gap, isInlay_wrap_blanks hblank hbody, ?_⟩
  rw [hplace]
  cases hspot : a.bindingEndSpot? anchor with
  | none =>
      refine Or.inr ⟨?_, h.skeleton_eq⟩
      rw [Assembly.append, h.pieces_eq, List.append_nil]
  | some spot =>
      obtain ⟨tag, hmem⟩ := Assembly.exists_of_bindingEndSpot? hspot
      obtain ⟨hskeleton, pieces, left, right, others, hcuts⟩ := Assembly.cuts_of_mem_closingSpots hmem
      have ha : a = ⟨o.segments.map Segment.text ++ [], Assembly.skeletonFrom 0 o.segments⟩ := by
        rw [← h.pieces_eq, ← h.skeleton_eq]
      rw [h.skeleton_eq] at hskeleton
      obtain ⟨front, back, hsegments, rfl, rfl⟩ :=
        Assembly.exists_literal_of_cuts (ha ▸ hcuts) hskeleton
      obtain ⟨o', hgains, hsegments'⟩ := Outline.exists_gains_of_closing hbare (wrap body ++ gap)
        Text.sealed_nil hsegments
      refine Or.inl ⟨o', hgains, ?_⟩
      dsimp only
      rw [hcuts.insertAt_eq]
      have hregions : o.segments.map Segment.isRegion =
          (Outline.segmentsFrom [] o'.head o'.blocks).map Segment.isRegion := by
        rw [hsegments, hsegments']
        simp [Segment.isRegion]
      refine ⟨?_, ?_⟩
      · rw [Outline.segments, hsegments']
        simp [Segment.text]
      · rw [h.skeleton_eq]
        exact Assembly.skeletonFrom_congr hregions 0

/-! ## The binding -/

/-- Where no region has begun, the binding is placed in the head. -/
theorem exists_head_eq {a : Assembly} {o : Outline} {tail : List Text} (h : Lays a o tail)
    (hfit : o.Fits .page) (hbare : Outline.Bare o.blocks) {anchor : Anchor}
    (hplace : Silent (Says [.regionBegin .page]) (a.lead anchor)) :
    ∃ right, o.head = a.lead anchor ++ right ∧
      a.trail anchor = right ++ (Outline.textFrom o.blocks ++ tail.flatten) := by
  rw [Assembly.lead] at hplace
  rw [Assembly.lead, Assembly.trail]
  cases hspot : a.bindingSpot? anchor with
  | none =>
      refine ⟨o.head, rfl, ?_⟩
      rw [Option.map_none, Option.getD_none, h.text_eq, Outline.text, List.append_assoc]
  | some spot =>
      obtain ⟨tag, hmem⟩ := Assembly.exists_of_bindingSpot? hspot
      obtain ⟨hskeleton, pieces, left, right, others, hcuts⟩ := Assembly.cuts_of_mem_startSpots hmem
      have ha : a = ⟨o.segments.map Segment.text ++ tail, Assembly.skeletonFrom 0 o.segments⟩ := by
        rw [← h.pieces_eq, ← h.skeleton_eq]
      rw [h.skeleton_eq] at hskeleton
      obtain ⟨front, back, hsegments, rfl, rfl⟩ :=
        Assembly.exists_literal_of_cuts (ha ▸ hcuts) hskeleton
      rw [hspot, Option.map_some, Option.getD_some, hcuts.before_eq, ← List.flatMap_def] at hplace
      obtain ⟨rfl, right', hhead, hback⟩ := Outline.split_head_of_start hbare
        (fun b hb => ⟨(hfit.blocks_fit b hb).opening_isBody,
          .regionBegin .page, List.mem_cons_self, (hfit.blocks_fit b hb).opening_kind⟩)
        hsegments hplace
      refine ⟨right', ?_, ?_⟩
      · rw [hhead, Option.map_some, Option.getD_some, hcuts.before_eq]
        rfl
      · rw [Option.map_some, Option.getD_some, hcuts.behind_eq, List.flatten_append,
          ← List.flatMap_def, ← List.append_assoc, ← List.append_assoc]
        exact congrArg (· ++ tail.flatten) hback

/-! ## The merged page -/

/-- What stands in the head of a template, converted, settles nothing. -/
theorem silent_head_layOutline {o : Outline} (hfit : o.Fits .template) {params : List Param}
    (hvalues : Skeleton.AreValues params) (hsilent : Silent (Says settling) o.text)
    (contents : List (Text × Text)) :
    Silent (Says settling) (layOutline contents params o).head :=
  silent_converted_of_free hvalues (by decide) hfit.head_free (Silent.left hsilent)

/-- The segments of a template are laid as those of its outline. -/
theorem map_unplaced_laid {o : Outline} (hfit : o.Fits .template) {template : Template}
    (hsegments : template.segments.map Segment.unplaced = o.segments)
    (hundescribed : ∀ segment ∈ template.segments, segment.isRegion = false →
      Skeleton.infoForm.findAll segment.text = []) {params : List Param}
    (hvalues : Skeleton.AreValues params) (contents : List (Text × Text)) :
    (template.segments.map (laySegment contents params)).map Segment.unplaced =
      (layOutline contents params o).segments := by
  have htoPage : ∀ text, Segment.literal text ∈ o.segments →
      Skeleton.toPage params text = Skeleton.converted params text := by
    intro text hmem
    rw [← hsegments] at hmem
    obtain ⟨segment, hsegment, heq⟩ := List.mem_map.mp hmem
    cases segment with
    | literal text' =>
        obtain rfl := Segment.literal.inj heq
        exact Skeleton.toPage_eq_converted hvalues.areQuiet (hundescribed _ hsegment rfl)
    | region name content span => cases heq
  rw [← segments_layOutline hfit htoPage, ← hsegments, List.map_map, List.map_map]
  exact List.map_congr_left fun segment _ => unplaced_laySegment contents params segment

theorem lays_assemble {o : Outline} (hfit : o.Fits .template) {template : Template}
    (hsegments : template.segments.map Segment.unplaced = o.segments)
    (hundescribed : ∀ segment ∈ template.segments, segment.isRegion = false →
      Skeleton.infoForm.findAll segment.text = []) {params : List Param}
    (hvalues : Skeleton.AreValues params) (contents : List (Text × Text)) :
    Lays (assemble template contents params).1 (layOutline contents params o) [] := by
  rw [assemble_eq, ← ofSegments_unplaced,
    map_unplaced_laid hfit hsegments hundescribed hvalues contents]
  exact ⟨by rw [List.append_nil]; rfl, rfl⟩

/-- The regions of a template that has been laid out. -/
theorem contents_layOutline {o : Outline} (hfit : o.Fits .template) {template : Template}
    (hsegments : template.segments.map Segment.unplaced = o.segments)
    (contents : List (Text × Text)) (params : List Param) :
    ((layOutline contents params o).blocks.map fun b => (b.name, b.content)) =
      (Segment.contents template.segments).map fun entry =>
        (entry.1, (layRegion contents entry.1 entry.2).1) := by
  rw [← Segment.contents_map_unplaced template.segments, hsegments, Outline.contents_segments,
    layOutline, List.map_map, List.map_map]
  refine List.map_congr_left fun b hb => ?_
  simp only [Function.comp_apply, name_layBlock (hfit.blocks_fit b hb)]
  rfl

/-- The template laid out for a page, with the end of its binding, as an outline. -/
theorem exists_lays_ended {text source text' source' : Text} {template : Template} {page : Page}
    {params : List Param} (htemplate : Template.build text source = .ok template)
    (hpage : Page.build text' source' = .ok { page with params := params })
    (h : Clean text template page) :
    ∃ (o : Outline) (tail : List Text), Lays (ended template page) o tail ∧ o.Fits .page ∧
      Outline.Bare o.blocks ∧ Silent (Says settling) o.head ∧
      (o.blocks.map fun b => (b.name, b.content)) =
        (Segment.contents template.segments).map (fun entry =>
          (entry.1, (layRegion (Segment.contents page.segments) entry.1 entry.2).1)) ∧
      (tail = [] ∨ ∃ body inlay, tail = [inlay] ∧ IsInlay body inlay ∧
        kind? body = some .bindingEnd) := by
  obtain ⟨o, hfit, rfl, hsegments⟩ := exists_outline_of_template htemplate
  have hsilent : Silent (Says settling) o.text := lacks_iff.mp h.lacks
  have hmono : ∀ body, Says (regionKinds .page) body → Says settling body := fun _ =>
    Says.mono (List.subset_cons_self _ _)
  have hfree : Free .page o.text := hsilent.mono hmono
  have hlays := lays_assemble hfit hsegments h.undescribed h.values
    (Segment.contents page.segments)
  have hlaidFit := fits_layOutline hfit h.values hfree (free_contents hpage)
  have hlaidBare := bare_layOutline (Segment.contents page.segments) h.values
    (bare_of_bareMarkers hfit h.bareMarkers)
  have hlaidHead := silent_head_layOutline hfit h.values hsilent (Segment.contents page.segments)
  have hlaidContents :=
    contents_layOutline hfit hsegments (Segment.contents page.segments) page.params
  rw [ended]
  cases hend : page.bindingEnd? with
  | none => exact ⟨_, [], hlays, hlaidFit, hlaidBare, hlaidHead, hlaidContents, Or.inl rfl⟩
  | some bindingEnd =>
      obtain ⟨body, hbody, hkind, hraw⟩ := Page.exists_body_of_bindingEnd hpage hend
      have hnot : ∀ {kinds : List Kind}, Kind.bindingEnd ∉ kinds → ¬ Says kinds body :=
        (says_iff_mem hkind).not.mpr
      obtain ⟨inlay, hinlay, ⟨o', hgains, hlays'⟩ | hlays'⟩ :=
        exists_ended hlays hlaidBare hbody (isBlank_bindingEndAnchor page bindingEnd)
      · refine ⟨o', [], ?_, hgains.fits hinlay (hnot (by decide)) hlaidFit, hgains.bare hlaidBare,
          hgains.silent_head hinlay (hnot (by decide)) hlaidHead,
          hgains.map_contents.trans hlaidContents, Or.inl rfl⟩
        dsimp only
        rwa [hraw]
      · refine ⟨_, [inlay], ?_, hlaidFit, hlaidBare, hlaidHead, hlaidContents,
          Or.inr ⟨body, inlay, rfl, hinlay, hkind⟩⟩
        dsimp only
        rwa [hraw]

/-- The text of a page merged with a clean template is that of an outline with its regions. -/
theorem exists_merged {text source text' source' : Text} {template : Template} {page : Page}
    {params : List Param} (htemplate : Template.build text source = .ok template)
    (hpage : Page.build text' source' = .ok { page with params := params })
    (h : Clean text template page) :
    ∃ o : Outline, o.Fits .page ∧ o.text = (merge template page).text ∧
      Silent (Says settling) (lead template page) ∧
      (o.blocks.map fun b => (b.name, b.content)) =
        (Segment.contents template.segments).map fun entry =>
          (entry.1, (layRegion (Segment.contents page.segments) entry.1 entry.2).1) := by
  obtain ⟨o, tail, hlays, hfit, hbare, hhead, hcontents, htail⟩ :=
    exists_lays_ended htemplate hpage h
  obtain ⟨right, hsplit, htrail⟩ := exists_head_eq hlays hfit hbare (lacks_iff.mp h.place)
  obtain ⟨body, hbody, hkind, -, hraw⟩ :=
    Page.exists_body_of_bindingOf (Page.bindingOf_of_build hpage)
  obtain ⟨gap, hgap, htext⟩ := text_merge template page
  have hinlay := isInlay_blanks_wrap hgap hbody
  rw [← hraw] at hinlay
  have hgains : Outline.Gains (gap ++ page.binding.raw) o
      ⟨lead template page ++ ((gap ++ page.binding.raw) ++ right), o.blocks⟩ := by
    have := Outline.Gains.head (w := gap ++ page.binding.raw) (lead template page) right o.blocks
    rwa [show lead template page ++ right = o.head from hsplit.symm] at this
  have hnot : ¬ Says (regionKinds .page) body := by
    rw [says_iff_mem hkind]
    decide
  have hfit' := hgains.fits hinlay hnot hfit
  have htext' : (merge template page).text = Outline.text
      ⟨lead template page ++ ((gap ++ page.binding.raw) ++ right), o.blocks⟩ ++ tail.flatten := by
    rw [htext, trail, htrail, Outline.text]
    simp only [List.append_assoc]
  have hlead : Silent (Says settling) (lead template page) := Silent.left (hsplit ▸ hhead)
  rcases htail with rfl | ⟨bodyEnd, inlay, rfl, hinlayEnd, hkindEnd⟩
  · exact ⟨_, hfit', by rw [htext', List.flatten_nil, List.append_nil], hlead,
      hgains.map_contents.trans hcontents⟩
  · obtain ⟨o', hgains', htextEnd⟩ := Outline.exists_gains_at_end inlay
      ⟨lead template page ++ ((gap ++ page.binding.raw) ++ right), o.blocks⟩
    have hnotEnd : ¬ Says (regionKinds .page) bodyEnd := by
      rw [says_iff_mem hkindEnd]
      decide
    refine ⟨o', hgains'.fits hinlayEnd hnotEnd hfit', ?_, hlead,
      hgains'.map_contents.trans (hgains.map_contents.trans hcontents)⟩
    rw [htextEnd, htext', List.flatten_singleton]

/-- Where no name comes twice, the first content of a name is the last one. -/
theorem content?_eq_lookup {contents : List (Text × Text)} (h : (contents.map Prod.fst).Nodup)
    (name : Text) : content? contents name = contents.lookup name := by
  rw [content?]
  induction contents with
  | nil => rfl
  | cons entry contents ih =>
      obtain ⟨hnew, hnodup⟩ := List.nodup_cons.mp h
      rw [List.lookup_cons]
      by_cases hname : entry.1 = name
      · have hnone : contents.filter (fun entry => entry.1 = name) = [] := by
          rw [List.filter_eq_nil_iff]
          intro other hother heq
          refine hnew ?_
          rw [hname, ← of_decide_eq_true heq]
          exact List.mem_map_of_mem hother
        rw [List.filter_cons_of_pos (by simpa using hname), hnone, hname, beq_self_eq_true]
        rfl
      · rw [List.filter_cons_of_neg (by simpa using hname), ih hnodup,
          beq_eq_false_iff_ne.mpr (Ne.symm hname)]

theorem content?_eq_region? {text source : Text} {page : Page}
    (h : Page.build text source = .ok page) (name : Text) :
    content? (Segment.contents page.segments) name = Segment.region? page.segments name := by
  obtain ⟨o, hfit, -, hsegments⟩ := exists_outline_of_page h
  refine content?_eq_lookup ?_ name
  rw [← Segment.contents_map_unplaced, hsegments, Outline.contents_segments, List.map_map]
  exact hfit.nodup

theorem layRegion_eq {text source : Text} {page : Page} (h : Page.build text source = .ok page)
    (name default : Text) : (layRegion (Segment.contents page.segments) name default).1 =
      (Segment.region? page.segments name).getD default := by
  rw [layRegion, content?_eq_region? h]
  cases Segment.region? page.segments name <;> rfl

/-- What is merged is a page, bound by the same comment, with the regions of the template. -/
theorem exists_page {text source text' source' : Text} {template : Template} {page : Page}
    {params : List Param} (htemplate : Template.build text source = .ok template)
    (hpage : Page.build text' source' = .ok { page with params := params })
    (h : Clean text template page)
    (target : Text) :
    ∃ merged, Page.build (merge template page).text target = .ok merged ∧
      merged.binding.raw = page.binding.raw ∧
      Segment.contents merged.segments = (Segment.contents template.segments).map fun entry =>
        (entry.1, (Segment.region? page.segments entry.1).getD entry.2) := by
  obtain ⟨o, hfit, htext, hlead, hcontents⟩ := exists_merged htemplate hpage h
  have hnone : (said (lead template page)).find? (fun entry => Page.settles entry.1) = none := by
    rw [find?_said, Option.map_eq_none_iff, List.find?_eq_none]
    intro token htoken hsettles
    have hmem : token.kind ∈ settling := by
      simpa [Page.settles, settling, or_assoc] using hsettles
    exact lacks_iff.mpr hlead token htoken hmem
  have hkeeps : Page.KeepsBinding { page with params := params } (merge template page).text := by
    rw [Page.keepsBinding_iff hpage, said_merge hpage, List.find?_append, hnone, Option.none_or,
      List.find?_cons]
    rfl
  obtain ⟨binding, hbinding⟩ :=
    (Page.exists_bindingOf_iff _ target).mpr (hkeeps.accepted target)
  have hraw := hkeeps.raw_eq
  rw [Page.firstBinding?_of_bindingOf hbinding, Option.map_some] at hraw
  obtain ⟨segments, hbuild, hunplaced⟩ := Outline.build_text hfit
  rw [htext] at hbuild
  refine ⟨_, by rw [Page.build_of_bound hbinding, hbuild]; rfl, Option.some.inj hraw, ?_⟩
  dsimp only
  rw [← Segment.contents_map_unplaced, hunplaced, Outline.contents_segments, hcontents]
  exact List.map_congr_left fun entry _ => by rw [layRegion_eq hpage]

end Merge

/-- A page merged with a clean template is a page. It is bound by the same comment, it has the
regions of the template in their order, and each of them holds what the page had in it, or the
content of the template where the page had no such region. -/
theorem build_merge {text source text' source' : Text} {template : Template} {page : Page}
    (htemplate : Template.build text source = .ok template)
    (hpage : Page.build text' source' = .ok page) (h : Merge.Clean text template page)
    (target : Text) :
    ∃ merged, Page.build (merge template page).text target = .ok merged ∧
      merged.binding.raw = page.binding.raw ∧
      Segment.regionNames merged.segments = Segment.regionNames template.segments ∧
      Segment.contents merged.segments = (Segment.contents template.segments).map fun entry =>
        (entry.1, (Segment.region? page.segments entry.1).getD entry.2) := by
  obtain ⟨merged, hbuild, hraw, hcontents⟩ := Merge.exists_page htemplate hpage h target
  refine ⟨merged, hbuild, hraw, ?_, hcontents⟩
  rw [Segment.regionNames_eq_map_contents, Segment.regionNames_eq_map_contents, hcontents,
    List.map_map]
  rfl

/-- A template of two regions. -/
def twoRegions : Text :=
  Text.concat ["<html>", wrap "TemplateBeginEditable name=\"a\"", "A", wrap "TemplateEndEditable",
    wrap "TemplateBeginEditable name=\"b\"", "B", wrap "TemplateEndEditable", "</html>"]

/-- A page that has the second region of them, and one of its own. -/
def otherRegions : Text :=
  Text.concat ["<html>", wrap "InstanceBegin template=\"/t.dwt\"",
    wrap "InstanceBeginEditable name=\"b\"", "mine", wrap "InstanceEndEditable",
    wrap "InstanceBeginEditable name=\"c\"", "gone", wrap "InstanceEndEditable", "</html>"]

theorem build_merge_twoRegions : ∃ template page merged,
    Template.build twoRegions [] = .ok template ∧ Page.build otherRegions [] = .ok page ∧
      Page.build (merge template page).text [] = .ok merged ∧
      Segment.contents merged.segments =
        [(.ofString "a", .ofString "A"), (.ofString "b", .ofString "mine")] := by
  have hrun : passes twoRegions otherRegions (fun template page =>
      decide (Merge.Clean twoRegions template page ∧ ((Segment.contents template.segments).map
        fun entry => (entry.1, (Segment.region? page.segments entry.1).getD entry.2)) =
          [(.ofString "a", .ofString "A"), (.ofString "b", .ofString "mine")])) = true := by
    rw [twoRegions, otherRegions]
    repeat rw [Text.ofString_ofList]
    decide +kernel
  obtain ⟨template, page, htemplate, hpage, htest⟩ := exists_of_passes hrun
  obtain ⟨hclean, hcontents⟩ := of_decide_eq_true htest
  obtain ⟨merged, hmerged, -, -, heq⟩ := build_merge htemplate hpage hclean []
  exact ⟨template, page, merged, htemplate, hpage, hmerged, heq.trans hcontents⟩

end Stencil
