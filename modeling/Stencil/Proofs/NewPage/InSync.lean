import Mathlib.Data.List.Infix
import Stencil.Proofs.NewPage.BindingComments

/-!
# New pages are in sync

A new page of a template that suits new pages is in sync with it (`create_inSync`): it is a page,
bound by the reference it was made with, it has the regions of the template with their contents,
and merging it with the template gives it back and reports no change. The new page is a page of two
comments merged with the template (`create_eq_merge`), so this is about merging again. What is laid
out stays the same, since the new page sets its parameters to what the template declares
(`Suits.concordant`). The binding comments come back to their places in two ways: between the
outermost tags they are found beside these (`exists_again_of_isFramed`), and without any such tags
they stand at the two ends of the page and are anchored there (`exists_again_of_isUntagged`).
-/

namespace Stencil

open Marker
open Assembly (htmlTag)

namespace Assembly

/-! ## Assemblies without tags -/

section Untagged

variable {segments : List Segment} (tail : List Text)

theorem flatten_spots_eq_nil {find : Text → List Nat}
    (h : ∀ t, .literal t ∈ segments → find t = []) :
    (spots ⟨segments.map Segment.text ++ tail, skeletonFrom 0 segments⟩ find).flatten = [] := by
  rw [List.flatten_eq_nil_iff]
  intro group hgroup
  obtain ⟨i, hi, rfl⟩ := List.mem_map.mp hgroup
  obtain ⟨front, t, back, rfl, rfl⟩ := exists_of_mem_skeletonFrom hi
  have hpiece : ((front ++ .literal t :: back).map Segment.text ++ tail)[0 + front.length]? =
      some t := by
    simp [Segment.text]
  dsimp only
  rw [hpiece, Option.getD_some, h t (by simp), List.map_nil]

theorem pickFromStart_eq_none {groups : List (List Spot)} (h : groups.flatten = []) :
    pickFromStart groups 1 = none := by
  rw [pickFromStart, h, if_neg (by simp), if_neg (by simp), List.getLast?_nil]

variable (h : ∀ t, .literal t ∈ segments →
  Tag.startsOf htmlTag t = [] ∧ Tag.closingsOf htmlTag t = [])

include h

/-- Without an `html` tag the end of a binding goes behind everything. -/
theorem placeBindingEnd_of_untagged (raw : Text) :
    (ofSegments segments).placeBindingEnd raw ⟨some htmlTag, 1, []⟩ =
      ⟨segments.map Segment.text ++ [raw], skeletonFrom 0 segments⟩ := by
  have hspots : (ofSegments segments).closingSpots htmlTag = [] := by
    have hflat := flatten_spots_eq_nil [] fun t ht => (h t ht).2
    rwa [List.append_nil] at hflat
  rw [placeBindingEnd]
  simp only [insertBeforeClosingTag, hspots]
  rfl

theorem bindingSpot?_of_untagged :
    bindingSpot? ⟨segments.map Segment.text ++ tail, skeletonFrom 0 segments⟩
      ⟨some htmlTag, 1, []⟩ = none := by
  have hflat := flatten_spots_eq_nil tail fun t ht => (h t ht).1
  rw [bindingSpot?, Option.bind_some, startSpots, pickFromStart_eq_none hflat, if_pos rfl]
  rfl

/-- Without an `html` tag a binding goes in front of everything. -/
theorem placeBinding_of_untagged (raw : Text) :
    placeBinding ⟨segments.map Segment.text ++ tail, skeletonFrom 0 segments⟩ raw
      ⟨some htmlTag, 1, []⟩ =
        ⟨raw :: (segments.map Segment.text ++ tail), skeletonFrom 0 segments⟩ := by
  have hflat := flatten_spots_eq_nil tail fun t ht => (h t ht).1
  rw [placeBinding]
  simp only [insertAfterStartTag, startSpots, pickFromStart_eq_none hflat]
  rfl

end Untagged

end Assembly

namespace Template

/-- No literal has an `html` tag. -/
def IsUntagged (template : Template) : Prop :=
  ∀ segment ∈ template.segments, segment.isRegion = false →
    Tag.startsOf htmlTag segment.text = [] ∧ Tag.closingsOf htmlTag segment.text = []

instance (template : Template) : Decidable template.IsUntagged :=
  inferInstanceAs (Decidable (∀ segment ∈ template.segments, segment.isRegion = false → _ ∧ _))

theorem params_of_build {text source : Text} {template : Template}
    (h : Template.build text source = .ok template) :
    template.params = Param.collect .template (scan text) := by
  rw [Template.build] at h
  obtain ⟨segments, -, rfl⟩ := exists_ok_of_map_ok h
  rfl

theorem areUnquoted_of_build {text source : Text} {template : Template}
    (h : Template.build text source = .ok template) : Skeleton.AreUnquoted template.params :=
  fun _ hparam => Param.no_quote_of_mem_collect (params_of_build h ▸ hparam)

end Template

namespace NewPage

/-- A template that new pages can be made of: it holds no markers of pages and no comment on the
template, its parameters are declared in full, and the places of the binding comments are either
between its outermost `html` tags or at the ends of the page. -/
structure Suits (text : Text) (template : Template) : Prop where
  lacks : Lacks pageKinds text
  undescribed : ∀ s ∈ text.tails, Skeleton.infoHead? s = none
  bareMarkers : BareMarkers text
  declares : ∀ body ∈ Merge.declared text, Declares body
  placed : template.IsFramed ∨ template.IsUntagged

instance (text : Text) (template : Template) : Decidable (Suits text template) :=
  decidable_of_iff (Lacks pageKinds text ∧ (∀ s ∈ text.tails, Skeleton.infoHead? s = none) ∧
      BareMarkers text ∧ (∀ body ∈ Merge.declared text, Declares body) ∧
      (template.IsFramed ∨ template.IsUntagged))
    ⟨fun ⟨h₁, h₂, h₃, h₄, h₅⟩ => ⟨h₁, h₂, h₃, h₄, h₅⟩,
      fun ⟨h₁, h₂, h₃, h₄, h₅⟩ => ⟨h₁, h₂, h₃, h₄, h₅⟩⟩

variable {text source reference : Text} {template : Template}

section Suits

variable (htemplate : Template.build text source = .ok template) (h : Suits text template)

include h

theorem Suits.locked_eq (htext : template.text = text) : locked template = "false" := by
  have hblind : lockForm.IsBlind := fun _ _ _ => rfl
  have habsent : lockForm.IsAbsent template.text := fun s _ hs => by
    rw [lockForm, h.undescribed s ((List.mem_tails _ _).mpr (htext ▸ hs)), Option.bind_none]
  rw [locked, Form.first?, Form.firstFrom_eq_none hblind habsent, Option.getD_none]

include htemplate

theorem Suits.undescribed_literal : ∀ segment ∈ template.segments, segment.isRegion = false →
    Skeleton.infoForm.findAll segment.text = [] := by
  intro segment hsegment _
  obtain ⟨before, behind, hsplit⟩ := List.append_of_mem hsegment
  have htext := Template.join_segments htemplate
  rw [hsplit, Segment.join_append, Segment.join_cons] at htext
  have hpart : ∀ s, s <:+ Segment.join before ++ (segment.text ++ Segment.join behind) →
      Skeleton.infoHead? s = none := fun s hs =>
    h.undescribed s ((List.mem_tails _ _).mpr (htext ▸ hs))
  exact Form.findFrom_of_isAbsent Skeleton.isBlind_infoForm (Skeleton.isAbsent_infoForm hpart) 0 none

theorem Suits.areValues : Skeleton.AreValues template.params := by
  intro param hparam
  rw [Template.params_of_build htemplate] at hparam
  obtain ⟨body, hbody, hkind, -, hvalue⟩ := Param.exists_body_of_mem_collect hparam
  exact hvalue ▸ (h.bareMarkers.isBare hbody hkind).of_subset (valueOf_subset body)

theorem Suits.concordant : Merge.Concordant text template [] template.params where
  lacks := h.lacks
  undescribed := h.undescribed_literal htemplate
  bareMarkers := h.bareMarkers
  declares := h.declares
  agree := by
    have hvalue : ∀ b ∈ Merge.declared text, ∃ param,
        Skeleton.param? template.params (nameOf b) = some param ∧
          valueOf (Skeleton.convertBody template.params b) = param.value := by
      intro b hb
      obtain ⟨hbody, hkind⟩ := List.mem_filter.mp hb
      have hkind := of_decide_eq_true hkind
      obtain ⟨param, hparam⟩ : ∃ param,
          Skeleton.param? template.params (nameOf b) = some param :=
        Template.params_of_build htemplate ▸ Param.exists_param?_collect hbody hkind
      have hdeclared := Skeleton.convertBody_declared
        (Template.areUnquoted_of_build htemplate) hkind (h.declares b hb)
      exact ⟨param, hparam, hdeclared.2.2.1 param hparam⟩
    intro b hb b' hb' hname
    obtain ⟨param, hparam, hb⟩ := hvalue b hb
    obtain ⟨param', hparam', hb'⟩ := hvalue b' hb'
    rw [hname, hparam'] at hparam
    rw [hb, hb', Option.some.inj hparam]
  values := h.areValues htemplate
  unquoted := Template.areUnquoted_of_build htemplate
  contents := List.forall_mem_nil _

/-- The template is laid out for it as before. -/
theorem assemble_again {target : Text} {again : Page} {merged : Text}
    (hagain : Page.build merged target = .ok again)
    (hcontents : Segment.contents again.segments = Segment.contents template.segments)
    (halike : Merge.SetsAlike (Merge.assemble template [] template.params).1.text merged) :
    (Merge.assemble template (Segment.contents again.segments) again.params).1 =
      (Merge.assemble template [] template.params).1 := by
  rw [(Page.bindingEndOf_of_build hagain).2.2]
  refine (h.concordant htemplate).assemble_again htemplate halike fun entry hentry => ?_
  rw [Merge.layRegion_eq hagain, Merge.region?_of_contents (Merge.nodup_contents htemplate)
    (hcontents.trans (List.map_id _).symm) hentry]
  rfl

end Suits

/-! ## Merging again -/

/-- What comes back when a page has been merged: the page, with the regions of the template, which
merging again leaves as it is. -/
structure IsSettled (template : Template) (page again : Page) : Prop where
  raw : again.binding.raw = page.binding.raw
  contents : Segment.contents again.segments = Segment.contents template.segments
  text_merge : (merge template again).text = (merge template page).text

section Again

variable {text' source' : Text} {page : Page} {params : List Param}
  (htemplate : Template.build text source = .ok template) (h : Suits text template)
  (hpage : Page.build text' source' = .ok { page with params := params })
  (hseed : IsSeed reference page) (hparams : page.params = template.params)

include htemplate h hpage hseed hparams

/-- A page that has been merged is a page with the regions of the template. -/
theorem exists_merged (hplace : Lacks [.regionBegin .page] (Merge.lead template page))
    (target : Text) : ∃ again, Page.build (merge template page).text target = .ok again ∧
      again.binding.raw = page.binding.raw ∧
      Segment.contents again.segments = Segment.contents template.segments := by
  have hclean : Merge.Clean text template page :=
    ⟨h.lacks.mono (by decide), h.undescribed_literal htemplate, h.bareMarkers,
      hparams ▸ h.areValues htemplate, hplace⟩
  obtain ⟨again, hagain, hraw, hcontents⟩ := Merge.exists_page htemplate hpage hclean target
  refine ⟨again, hagain, hraw, hcontents.trans ?_⟩
  have hnone : ∀ name, Segment.region? page.segments name = none := fun name => by
    rw [Segment.region?, hseed.contents]
    rfl
  simp only [hnone, Option.getD_none]
  exact List.map_id _

/-- Between its outermost tags the new page is bound as the template asks. -/
theorem exists_again_of_isFramed (hframed : template.IsFramed) (target : Text) :
    ∃ again, Page.build (merge template page).text target = .ok again ∧
      IsSettled template page again := by
  have henclosed : Merge.Enclosed text template page := {
    lacks := h.lacks.mono (by decide)
    undescribed := h.undescribed_literal htemplate
    bareMarkers := h.bareMarkers
    framed := hframed
    bound := by
      rw [hseed.before]
      decide +kernel
    ended := fun bindingEnd hend => by
      obtain ⟨bindingEnd', hend', -, hafter⟩ := hseed.ended
      obtain rfl := Option.some.inj (hend'.symm.trans hend)
      rw [hafter]
      decide +kernel
    values := hparams ▸ h.areValues htemplate
    contents := hseed.contents ▸ List.forall_mem_nil _ }
  obtain ⟨front, mid, back, gap, gapEnd, hmade⟩ := Merge.exists_made htemplate henclosed
  obtain ⟨again, hagain, hraw, hcontents⟩ :=
    exists_merged htemplate h hpage hseed hparams (henclosed.clean hmade).place target
  have halike := hmade.setsAlike hpage
  rw [hseed.contents, hparams] at halike
  refine ⟨again, hagain, hraw, hcontents, ?_⟩
  refine Merge.text_merge_again htemplate hpage henclosed hmade hagain hraw hmade.framed ?_
  rw [assemble_again htemplate h hagain hcontents halike, hseed.contents, hparams]

omit hpage hseed hparams in
/-- Without tags in the template none are laid out. -/
theorem untagged_laid (huntagged : template.IsUntagged) : ∀ t,
    .literal t ∈ template.segments.map (Merge.laySegment [] template.params) →
      Tag.startsOf htmlTag t = [] ∧ Tag.closingsOf htmlTag t = [] := by
  intro t ht
  obtain ⟨segment, hsegment, hlaid⟩ := List.mem_map.mp ht
  cases segment with
  | region name default span => cases hlaid
  | literal t' =>
      have hvalues := h.areValues htemplate
      have hsmooth : Silent IsRough t' := by
        refine Merge.silent_of_mem ?_ hsegment
        rw [Template.join_segments htemplate]
        exact h.bareMarkers.silent
      obtain ⟨hstarts, hclosings⟩ := huntagged _ hsegment rfl
      obtain rfl := Segment.literal.inj hlaid
      have htoPage : Skeleton.toPage template.params t' = Skeleton.converted template.params t' :=
        Skeleton.toPage_eq_converted hvalues.areQuiet (h.undescribed_literal htemplate _ hsegment rfl)
      rw [htoPage, Skeleton.startsOf_converted hvalues hsmooth,
        Skeleton.closingsOf_converted hvalues hsmooth]
      exact ⟨List.map_eq_nil_iff.mpr hstarts, List.map_eq_nil_iff.mpr hclosings⟩

omit hpage in
/-- Without tags the binding comments go to the two ends of what is laid out. -/
theorem text_merge_of_isUntagged (huntagged : template.IsUntagged) :
    Merge.lead template page = [] ∧ (merge template page).text =
      enclose reference (Merge.assemble template [] template.params).1.text := by
  have hlaid := untagged_laid htemplate h huntagged
  have hended := hseed.ended_eq template
  rw [hparams, Merge.assemble_eq, Assembly.placeBindingEnd_of_untagged hlaid] at hended
  constructor
  · rw [Merge.lead, hended, hseed.bindingAnchor_eq, Assembly.lead,
      Assembly.bindingSpot?_of_untagged _ hlaid]
    rfl
  · rw [Merge.text_merge_eq, hended, hseed.bindingAnchor_eq,
      Assembly.placeBinding_of_untagged _ hlaid, hseed.raw, bindingEndComment_eq, Merge.assemble_eq]
    simp [enclose, Assembly.text, Assembly.ofSegments]

/-- Without tags the binding comments of the new page come back to its ends. -/
theorem exists_again_of_isUntagged (hreference : IsReference reference)
    (huntagged : template.IsUntagged) (target : Text) :
    ∃ again, Page.build (merge template page).text target = .ok again ∧
      IsSettled template page again := by
  obtain ⟨hlead, htext⟩ := text_merge_of_isUntagged htemplate h hseed hparams huntagged
  obtain ⟨again, hagain, hraw, hcontents⟩ :=
    exists_merged htemplate h hpage hseed hparams (hlead ▸ by decide +kernel) target
  refine ⟨again, hagain, hraw, hcontents, ?_⟩
  have hsilent := Merge.silent_assemble htemplate (h.lacks.mono (by decide))
    (h.undescribed_literal htemplate) (h.areValues htemplate) (List.forall_mem_nil _)
  rw [htext] at hagain ⊢
  have hassemble := assemble_again htemplate h hagain hcontents (setsAlike_enclose hreference)
  rw [← hassemble, ← text_placeComments_enclose hreference hsilent hagain]
  rfl

end Again

end NewPage

/-- Of a page that has just the contents of its template no change is reported. -/
theorem Merge.changes_eq {text source text' source' : Text} {template : Template} {page : Page}
    (htemplate : Template.build text source = .ok template)
    (hpage : Page.build text' source' = .ok page)
    (hcontents : Segment.contents page.segments = Segment.contents template.segments) :
    (merge template page).changes = (Segment.contents template.segments).map fun entry =>
      ⟨entry.1, .unchanged, some entry.2, some entry.2⟩ := by
  have hremovals : removals template page = [] := by
    rw [removals, hcontents, List.map_eq_nil_iff, List.filter_eq_nil_iff]
    intro entry hentry hnew
    refine of_decide_eq_true hnew ?_
    rw [Segment.regionNames_eq_map_contents]
    exact List.mem_map_of_mem hentry
  have hkept : ∀ entry ∈ Segment.contents template.segments,
      (layRegion (Segment.contents page.segments) entry.1 entry.2).2 =
        ⟨entry.1, .unchanged, some entry.2, some entry.2⟩ := fun entry hentry => by
    rw [layRegion, content?_eq_region? hpage, region?_of_contents (nodup_contents htemplate)
      (hcontents.trans (List.map_id _).symm) hentry]
    exact congrArg (fun status => Change.mk _ status _ _) (if_pos rfl)
  calc (merge template page).changes
      = (assemble template (Segment.contents page.segments) page.params).2 ++
          removals template page := rfl
    _ = (Segment.contents template.segments).map fun entry =>
          (layRegion (Segment.contents page.segments) entry.1 entry.2).2 := by
        rw [hremovals, List.append_nil, assemble, changes_layFrom]
    _ = _ := List.map_congr_left hkept

/-- A new page of a template that suits new pages is in sync with it. It is a page, bound by just the
reference it was made with; it has the regions of the template with their contents; and merging it
with the template gives it back and reports every region as unchanged. -/
theorem create_inSync {text source reference : Text} {template : Template}
    (htemplate : Template.build text source = .ok template)
    (h : NewPage.Suits text template) (hreference : NewPage.IsReference reference)
    (target : Text) :
    ∃ page, Page.build (NewPage.create template reference) target = .ok page ∧
      page.templateRef = reference ∧
      Segment.regionNames page.segments = Segment.regionNames template.segments ∧
      Segment.contents page.segments = Segment.contents template.segments ∧
      (merge template page).text = NewPage.create template reference ∧
      (merge template page).changes = (Segment.contents template.segments).map fun entry =>
        ⟨entry.1, .unchanged, some entry.2, some entry.2⟩ := by
  obtain ⟨page, params, hpage, hseed, hparams⟩ :=
    NewPage.exists_seed hreference template.params
  obtain ⟨again, hagain, hsettled⟩ : ∃ again,
      Page.build (merge template page).text target = .ok again ∧
        NewPage.IsSettled template page again := by
    rcases h.placed with hframed | huntagged
    · exact NewPage.exists_again_of_isFramed htemplate h hpage hseed hparams hframed target
    · exact NewPage.exists_again_of_isUntagged htemplate h hpage hseed hparams hreference huntagged
        target
  have hcreate : NewPage.create template reference = (merge template page).text :=
    NewPage.create_eq_merge (h.locked_eq (Template.text_of_build htemplate)) hseed hparams
  refine ⟨again, hcreate ▸ hagain, ?_, ?_, hsettled.contents, hcreate ▸ hsettled.text_merge,
    Merge.changes_eq htemplate hagain hsettled.contents⟩
  · obtain ⟨body, -, -, hname, hraw⟩ :=
      Page.exists_body_of_bindingOf (Page.bindingOf_of_build hagain)
    obtain rfl : body = NewPage.bindingBody reference :=
      wrap_inj (hraw.symm.trans (hsettled.raw.trans hseed.raw))
    rw [Page.templateRef, ← hname]
    exact (NewPage.classify_bindingBody hreference).2
  · rw [Segment.regionNames_eq_map_contents, Segment.regionNames_eq_map_contents,
      hsettled.contents]

/-- A new page of a template with a region and a parameter. -/
theorem create_titled : ∃ template page, Template.build titled [] = .ok template ∧
    Page.build (NewPage.create template "/Templates/t.dwt") [] = .ok page ∧
      page.templateRef = "/Templates/t.dwt" ∧
      (merge template page).text = NewPage.create template "/Templates/t.dwt" := by
  have hrun : passes titled boundAround (fun template _ =>
      decide (NewPage.Suits titled template)) = true := by
    rw [titled, boundAround]
    repeat rw [Text.ofString_ofList]
    decide +kernel
  obtain ⟨template, -, htemplate, -, hsuits⟩ := exists_of_passes hrun
  have hreference : NewPage.IsReference "/Templates/t.dwt" := by decide +kernel
  obtain ⟨page, hpage, href, -, -, htext, -⟩ :=
    create_inSync htemplate (of_decide_eq_true hsuits) hreference []
  exact ⟨template, page, htemplate, hpage, href, htext⟩

end Stencil
