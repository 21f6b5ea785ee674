import Mathlib.Data.List.Nodup
import Stencil.Proofs.Document.Params
import Stencil.Proofs.Merge.Canonical

/-!
# Merging again

A page that has been merged with a canonical template is not changed by merging it again
(`merge_merge`). Its contents are those it was given (`exists_page`), and its parameters are the
converted declarations of the template (`Concordant.exists_declared`), which give each name the
value it has come to carry, so the template is laid out as before (`Concordant.assemble_again`). Its
binding stands between the same tags, with the same blanks, so it goes to the same places
(`binding_again`, `bindingEnd_again`).
-/

namespace Stencil

open Marker
open Assembly (htmlTag)

namespace Merge

variable {text source text' source' : Text} {template : Template} {page : Page}

/-- What a canonical template is laid out as, and the comments that are put in. -/
structure Made (text : Text) (template : Template) (page : Page)
    (front mid back gap gapEnd : Text) : Prop where
  framed : (assemble template (Segment.contents page.segments) page.params).1.Framed htmlTag front
    mid back
  back_closings : Tag.closingsOf htmlTag back = [0]
  front_silent : Silent (Says (settling ++ [.bindingEnd])) front
  anchor : bindingAnchor page = ⟨some htmlTag, 1, gap⟩
  gap_isBlank : gap.isBlank = true
  endAnchor : ∀ bindingEnd ∈ page.bindingEnd?,
    bindingEndAnchor page bindingEnd = ⟨some htmlTag, 1, gapEnd⟩
  gapEnd_isBlank : gapEnd.isBlank = true

theorem silent_front (h : Enclosed text template page) {front : Text}
    (hfront : ∃ u, text = front ++ u) (hfree : Lacks (regionKinds .template) front) :
    Silent (Says (settling ++ [.bindingEnd])) (Skeleton.converted page.params front) := by
  obtain ⟨u, rfl⟩ := hfront
  exact silent_converted_of_free h.values (by decide) (lacks_iff.mp hfree)
    (lacks_iff.mp h.lacks).left

theorem Enclosed.toPage_eq (h : Enclosed text template page) :
    ∀ t, Segment.literal t ∈ template.segments →
      Skeleton.toPage page.params t = Skeleton.converted page.params t := fun t ht =>
  Skeleton.toPage_eq_converted h.values.areQuiet (h.undescribed (.literal t) ht rfl)

theorem exists_made (htemplate : Template.build text source = .ok template)
    (h : Enclosed text template page) :
    ∃ front mid back gap gapEnd, Made text template page front mid back gap gapEnd := by
  obtain ⟨front, hfront, back, hback, hfree, -, hlength⟩ := h.framed
  have hjoin := Template.join_segments htemplate
  have hsmooth : Silent IsRough (Segment.join template.segments) := by
    rw [hjoin]
    exact h.bareMarkers.silent
  obtain ⟨mid, hframed⟩ := exists_framed (Segment.contents page.segments) h.values
    h.toPage_eq hsmooth (hjoin.trans (Template.text_of_build htemplate).symm) hfront
    hback hlength
  obtain ⟨gap, hgap, hanchor⟩ := exists_bindingAnchor h.bound
  obtain ⟨gapEnd, hgapEnd, hendAnchor⟩ : ∃ gapEnd : Text, gapEnd.isBlank = true ∧
      ∀ bindingEnd ∈ page.bindingEnd?,
        bindingEndAnchor page bindingEnd = ⟨some htmlTag, 1, gapEnd⟩ := by
    cases hend : page.bindingEnd? with
    | none => exact ⟨[], rfl, nofun⟩
    | some bindingEnd =>
        obtain ⟨gapEnd, hgapEnd, hanchor⟩ := exists_bindingEndAnchor (h.ended bindingEnd hend)
        refine ⟨gapEnd, hgapEnd, fun other hother => ?_⟩
        obtain rfl := Option.some.inj hother
        exact hanchor
  obtain ⟨rest, more, hfirst, -⟩ := Template.exists_of_front? hfront
  obtain ⟨init, rest', v, hlast, -, hclosings, -⟩ := Template.exists_of_back? hback
  have hlastSmooth := silent_of_mem hsmooth (t := rest' ++ back) (by rw [hlast]; simp)
  refine ⟨_, mid, _, gap, gapEnd, hframed, ?_, silent_front h ?_ hfree, hanchor, hgap,
    hendAnchor, hgapEnd⟩
  · rw [Skeleton.closingsOf_converted h.values hlastSmooth.right, hclosings]
    rfl
  · rw [← hjoin, hfirst]
    exact ⟨rest ++ Segment.join more, by simp [Segment.text]⟩

theorem Enclosed.clean (h : Enclosed text template page)
    {front mid back gap gapEnd : Text} (hmade : Made text template page front mid back gap gapEnd) :
    Clean text template page where
  lacks := h.lacks.mono (List.subset_append_left _ _)
  undescribed := h.undescribed
  bareMarkers := h.bareMarkers
  values := h.values
  place := by
    rw [(text_merge_of_framed hmade.framed hmade.anchor hmade.endAnchor).1, lacks_iff]
    exact hmade.front_silent.mono fun body => Says.mono (by decide)

/-! ## What the comments of the merged page say -/

theorem bodies_assemble (htemplate : Template.build text source = .ok template)
    (hundescribed : ∀ segment ∈ template.segments, segment.isRegion = false →
      Skeleton.infoForm.findAll segment.text = []) {params : List Param}
    (hvalues : Skeleton.AreValues params) {contents : List (Text × Text)} {body : Text}
    (hbody : body ∈ bodies (assemble template contents params).1.text) :
    (∃ b ∈ bodies text, body = Skeleton.convertBody params b) ∨ body ∈ bodies text ∨
      ∃ entry ∈ contents, body ∈ bodies entry.2 := by
  obtain ⟨o, hfit, rfl, hsegments⟩ := exists_outline_of_template htemplate
  have hlays := lays_assemble hfit hsegments hundescribed hvalues contents
  rw [hlays.text_eq, List.flatten_nil, List.append_nil] at hbody
  exact mem_bodies_layOutline hfit hvalues hbody

/-- What is laid out ends no binding. -/
theorem silent_assemble (htemplate : Template.build text source = .ok template)
    (hlacks : Lacks [.bindingEnd] text)
    (hundescribed : ∀ segment ∈ template.segments, segment.isRegion = false →
      Skeleton.infoForm.findAll segment.text = []) {params : List Param}
    (hvalues : Skeleton.AreValues params) {contents : List (Text × Text)}
    (hcontents : ∀ entry ∈ contents, Lacks [.bindingEnd] entry.2) :
    Silent (Says [.bindingEnd]) (assemble template contents params).1.text := by
  have hlacks := lacks_iff.mp hlacks
  rintro body hbody ⟨kind, hmem, hkind⟩
  obtain rfl := List.mem_singleton.mp hmem
  rcases bodies_assemble htemplate hundescribed hvalues hbody with
    ⟨b, hb, rfl⟩ | hb | ⟨entry, hentry, hb⟩
  · rcases Skeleton.kind?_convertBody hkind with hsaid | hparam | ⟨hregion, -⟩ | ⟨hregion, -⟩
    · exact hlacks b hb ⟨_, hmem, hsaid⟩
    · cases hparam
    · cases hregion
    · cases hregion
  · exact hlacks body hb ⟨_, hmem, hkind⟩
  · exact lacks_iff.mp (hcontents entry hentry) body hb ⟨_, hmem, hkind⟩

theorem areUnquoted_of_build (hpage : Page.build text' source' = .ok page) :
    Skeleton.AreUnquoted page.params := by
  intro param hparam
  rw [(Page.bindingEndOf_of_build hpage).2.2] at hparam
  exact Param.no_quote_of_mem_collect hparam

theorem areQuiet_of_build (hpage : Page.build text' source' = .ok page) :
    Skeleton.AreQuiet page.params := by
  intro param hparam
  rw [(Page.bindingEndOf_of_build hpage).2.2] at hparam
  exact Param.isQuiet_of_mem_collect hparam

/-- What ends the binding is nothing, or a comment and blanks. -/
theorem ending_cases {params : List Param}
    (hpage : Page.build text' source' = .ok { page with params := params }) (gap : Text) :
    page.bindingEnd? = none ∧ ending page gap = [] ∨
      ∃ bindingEnd body, page.bindingEnd? = some bindingEnd ∧ IsBody body ∧
        kind? body = some .bindingEnd ∧ bindingEnd.raw = wrap body ∧
        ending page gap = wrap body ++ gap := by
  cases hend : page.bindingEnd? with
  | none => exact Or.inl ⟨rfl, by rw [ending, hend]; rfl⟩
  | some bindingEnd =>
      obtain ⟨body, hbody, hkind, hraw⟩ := Page.exists_body_of_bindingEnd hpage hend
      refine Or.inr ⟨bindingEnd, body, rfl, hbody, hkind, hraw, ?_⟩
      rw [ending, hend, ← hraw]
      rfl

/-- The merged page holds the comments that were laid out, and the two that were put in. -/
theorem Made.mem_bodies {front mid back gap gapEnd : Text} {params : List Param}
    (hmade : Made text template page front mid back gap gapEnd)
    (hpage : Page.build text' source' = .ok { page with params := params }) {body : Text}
    (hbody : body ∈ bodies (merge template page).text) :
    kind? body = some .binding ∨ kind? body = some .bindingEnd ∧ page.bindingEnd? ≠ none ∨
      body ∈ bodies (assemble template (Segment.contents page.segments) page.params).1.text := by
  obtain ⟨binding, hbinding, hbindingKind, -, hraw⟩ :=
    Page.exists_body_of_bindingOf (Page.bindingOf_of_build hpage)
  rw [hmade.framed.text_eq]
  rw [(text_merge_of_framed hmade.framed hmade.anchor hmade.endAnchor).2, hraw,
    isInlay_blanks_wrap hmade.gap_isBlank hbinding, List.mem_append, List.mem_cons] at hbody
  rcases hbody with hfront | rfl | hrest
  · exact Or.inr (Or.inr (mem_bodies_append_left hfront _))
  · exact Or.inl hbindingKind
  · rcases ending_cases hpage gapEnd with
      ⟨-, hnone⟩ | ⟨bindingEnd, body', hend, hbody', hkind', -, hsome⟩
    · rw [hnone] at hrest
      exact Or.inr (Or.inr (mem_bodies_append_right hrest))
    · rw [hsome, isInlay_wrap_blanks hmade.gapEnd_isBlank hbody', List.mem_append,
        List.mem_cons] at hrest
      rcases hrest with hmid | rfl | hback
      · exact Or.inr (Or.inr (mem_bodies_append_right (mem_bodies_append_left hmid _)))
      · exact Or.inr (Or.inl ⟨hkind', by rw [hend]; nofun⟩)
      · exact Or.inr (Or.inr (mem_bodies_append_right (mem_bodies_append_right hback)))

/-- No marker that was laid out has been cut by the two comments. -/
theorem Made.mem_bodies_merged {front mid back gap gapEnd : Text}
    (hmade : Made text template page front mid back gap gapEnd) {body : Text}
    (hbody : body ∈ bodies
      (assemble template (Segment.contents page.segments) page.params).1.text)
    (hbare : IsBare body) : body ∈ bodies (merge template page).text := by
  obtain ⟨x, hx⟩ := Tag.exists_end hmade.framed.starts
  obtain ⟨v, hv⟩ := Tag.exists_closing_of_zero_mem
    (by rw [hmade.back_closings]; exact List.mem_cons_self : 0 ∈ Tag.closingsOf htmlTag back)
  rw [(text_merge_of_framed hmade.framed hmade.anchor hmade.endAnchor).2]
  rw [hmade.framed.text_eq] at hbody
  rcases mem_bodies_append hbody fun y q q' w hy hw hq hq' =>
    wrap_ne_of_end hbare (hx ▸ hy) hq hq' with hfront | hrest
  · exact mem_bodies_append_left hfront _
  · refine mem_bodies_append_right (mem_bodies_append_right ?_)
    rcases mem_bodies_append hrest fun y q q' w hy hw hq hq' =>
      wrap_ne_of_closing hbare (hv ▸ hw) hq' with hmid | hback
    · exact mem_bodies_append_left hmid _
    · exact mem_bodies_append_right (mem_bodies_append_right hback)

/-- A text sets parameters by the comments that were laid out: no others set one, and no marker
among them is lost. -/
structure SetsAlike (laid merged : Text) : Prop where
  of_param : ∀ body ∈ bodies merged, kind? body = some (.param .page) → body ∈ bodies laid
  of_bare : ∀ body ∈ bodies laid, IsBare body → body ∈ bodies merged

theorem Made.setsAlike {front mid back gap gapEnd : Text} {params : List Param}
    (hmade : Made text template page front mid back gap gapEnd)
    (hpage : Page.build text' source' = .ok { page with params := params }) :
    SetsAlike (assemble template (Segment.contents page.segments) page.params).1.text
      (merge template page).text where
  of_param body hbody hkind := by
    rcases hmade.mem_bodies hpage hbody with hbinding | ⟨hend, -⟩ | hlaid
    · rw [hkind] at hbinding
      cases hbinding
    · rw [hkind] at hend
      cases hend
    · exact hlaid
  of_bare body hbody hbare := hmade.mem_bodies_merged hbody hbare

/-! ## The template laid out again -/

/-- A template laid out with contents and parameters such that its declarations, and no other
comments, set the parameters of the page, and declarations of one name set the same value. -/
structure Concordant (text : Text) (template : Template) (contents : List (Text × Text))
    (params : List Param) : Prop where
  lacks : Lacks pageKinds text
  undescribed : ∀ segment ∈ template.segments, segment.isRegion = false →
    Skeleton.infoForm.findAll segment.text = []
  bareMarkers : BareMarkers text
  declares : ∀ body ∈ declared text, Declares body
  agree : ∀ b ∈ declared text, ∀ b' ∈ declared text, nameOf b = nameOf b' →
    valueOf (Skeleton.convertBody params b) = valueOf (Skeleton.convertBody params b')
  values : Skeleton.AreValues params
  unquoted : Skeleton.AreUnquoted params
  contents : ∀ entry ∈ contents, Lacks [.param .page] entry.2

theorem Canonical.concordant (h : Canonical text template page)
    (hpage : Page.build text' source' = .ok page) :
    Concordant text template (Segment.contents page.segments) page.params where
  lacks := h.lacks
  undescribed := h.undescribed
  bareMarkers := h.bareMarkers
  declares := fun body hbody => (h.declarations body hbody).declares
  agree := fun b hb b' hb' hname => by rw [List.inj_on_of_nodup_map h.names hb hb' hname]
  values := h.values
  unquoted := areUnquoted_of_build hpage
  contents := fun entry hentry => (h.contents entry hentry).mono (by decide)

/-- What is laid out is settled by how declarations are converted and what the regions hold. -/
theorem assemble_congr {contents contents' : List (Text × Text)} {params params' : List Param}
    (hliteral : ∀ t, .literal t ∈ template.segments → ∀ body ∈ bodies t,
      Skeleton.convertBody params body = Skeleton.convertBody params' body)
    (hregion : ∀ entry ∈ Segment.contents template.segments,
      (layRegion contents entry.1 entry.2).1 = (layRegion contents' entry.1 entry.2).1) :
    (assemble template contents params).1 = (assemble template contents' params').1 := by
  rw [assemble_eq, assemble_eq]
  refine congrArg Assembly.ofSegments (List.map_congr_left fun segment hsegment => ?_)
  cases segment with
  | literal t =>
      have hconverted := Skeleton.converted_congr (hliteral t hsegment)
      exact congrArg (fun u => Segment.literal (Skeleton.infoForm.cutAll u)) hconverted
  | region name default span =>
      have hentry : (name, default) ∈ Segment.contents template.segments :=
        List.mem_filterMap.mpr ⟨_, hsegment, rfl⟩
      rw [laySegment, laySegment, hregion _ hentry]

/-- Where no parameter is declared, what is laid out is settled by what the regions hold. -/
theorem assemble_eq_of_lacks (htemplate : Template.build text source = .ok template)
    (hlacks : Lacks [.param .template] text) {contents contents' : List (Text × Text)}
    {params params' : List Param} (hregion : ∀ entry ∈ Segment.contents template.segments,
      (layRegion contents entry.1 entry.2).1 = (layRegion contents' entry.1 entry.2).1) :
    (assemble template contents params).1 = (assemble template contents' params').1 := by
  refine assemble_congr (fun t ht body hbody => ?_) hregion
  refine Skeleton.convertBody_congr (fun hkind => ?_) _ _
  have htext : body ∈ bodies text := by
    rw [← Template.join_segments htemplate]
    exact mem_bodies_join ht hbody
  exact lacks_iff.mp hlacks body htext ⟨_, List.mem_cons_self, hkind⟩

section Concordant

variable {contents : List (Text × Text)} {params : List Param} {merged : Text}
  (htemplate : Template.build text source = .ok template)
  (h : Concordant text template contents params)

include htemplate h

/-- What sets a parameter is a declaration of the template, converted. -/
theorem Concordant.exists_declared {body : Text}
    (hbody : body ∈ bodies (assemble template contents params).1.text)
    (hkind : kind? body = some (.param .page)) :
    ∃ b ∈ declared text, body = Skeleton.convertBody params b := by
  have hlacks := lacks_iff.mp h.lacks
  rcases bodies_assemble htemplate h.undescribed h.values hbody with
    ⟨b, hb, rfl⟩ | hb | ⟨entry, hentry, hb⟩
  · rcases Skeleton.kind?_of_convertBody_param hkind with hsaid | hsaid
    · exact ⟨b, List.mem_filter.mpr ⟨hb, by simp [hsaid]⟩, rfl⟩
    · exact absurd ⟨_, by decide, hsaid⟩ (hlacks b hb)
  · exact absurd ⟨_, by decide, hkind⟩ (hlacks body hb)
  · exact absurd ⟨_, by decide, hkind⟩ (lacks_iff.mp (h.contents entry hentry) body hb)

/-- The parameters of the merged page convert the declarations to what they are in it. -/
theorem Concordant.convertBody_again
    (halike : SetsAlike (assemble template contents params).1.text merged) {t : Text}
    (ht : .literal t ∈ template.segments) {b : Text} (hb : b ∈ bodies t) :
    Skeleton.convertBody (Param.collect .page (scan merged)) b =
      Skeleton.convertBody params b := by
  by_cases hkind : kind? b = some (.param .template)
  · have htext : b ∈ bodies text := by
      rw [← Template.join_segments htemplate]
      exact mem_bodies_join ht hb
    have hdeclared : b ∈ declared text := List.mem_filter.mpr ⟨htext, by simp [hkind]⟩
    obtain ⟨hkind', hname, -, hsame⟩ :=
      Skeleton.convertBody_declared h.unquoted hkind (h.declares b hdeclared)
    refine hsame _ (Param.param?_collect (halike.of_bare _ ?_ ?_) hkind' hname ?_)
    · have hlaid : Segment.literal (Skeleton.converted params t) ∈
          template.segments.map (laySegment contents params) := by
        have hconverted : Skeleton.toPage params t = Skeleton.converted params t :=
          Skeleton.toPage_eq_converted h.values.areQuiet (h.undescribed (.literal t) ht rfl)
        rw [← hconverted]
        exact List.mem_map.mpr ⟨_, ht, rfl⟩
      rw [assemble_eq, Assembly.text_ofSegments]
      refine mem_bodies_join hlaid ?_
      rw [Skeleton.bodies_converted h.values.areQuiet]
      exact List.mem_map_of_mem hb
    · exact Skeleton.isBare_convertBody h.values (h.bareMarkers.isBare htext hkind)
    · intro body hbody hbodyKind hbodyName
      obtain ⟨b', hb', rfl⟩ :=
        h.exists_declared htemplate (halike.of_param body hbody hbodyKind) hbodyKind
      have hkindDeclared := of_decide_eq_true (List.mem_filter.mp hb').2
      obtain ⟨-, hname', -⟩ :=
        Skeleton.convertBody_declared h.unquoted hkindDeclared (h.declares b' hb')
      exact h.agree b' hb' b hdeclared (hname'.symm.trans hbodyName)
  · exact Skeleton.convertBody_congr hkind _ _

theorem Concordant.assemble_again
    (halike : SetsAlike (assemble template contents params).1.text merged)
    {contents' : List (Text × Text)} (hregion : ∀ entry ∈ Segment.contents template.segments,
      (layRegion contents' entry.1 entry.2).1 = (layRegion contents entry.1 entry.2).1) :
    (assemble template contents' (Param.collect .page (scan merged))).1 =
      (assemble template contents params).1 :=
  assemble_congr (fun _ ht _ hb => h.convertBody_again htemplate halike ht hb) hregion

end Concordant

theorem nodup_contents (htemplate : Template.build text source = .ok template) :
    ((Segment.contents template.segments).map Prod.fst).Nodup := by
  obtain ⟨o, hfit, -, hsegments⟩ := exists_outline_of_template htemplate
  rw [← Segment.contents_map_unplaced, hsegments, Outline.contents_segments, List.map_map]
  exact hfit.nodup

/-- Of contents that come from those of a template each is found under its name. -/
theorem region?_of_contents {segments segments' : List Segment} {content : Text × Text → Text}
    (hnodup : ((Segment.contents segments).map Prod.fst).Nodup)
    (hcontents : Segment.contents segments' =
      (Segment.contents segments).map fun entry => (entry.1, content entry)) {entry : Text × Text}
    (hentry : entry ∈ Segment.contents segments) :
    Segment.region? segments' entry.1 = some (content entry) := by
  obtain ⟨before, behind, hsplit⟩ := List.append_of_mem hentry
  rw [hsplit, List.map_append, List.nodup_append] at hnodup
  rw [Segment.region?, hcontents, hsplit, List.map_append, List.map_cons]
  refine Skeleton.lookup_here fun hmem => ?_
  rw [List.map_map] at hmem
  exact hnodup.2.2 entry.1 hmem entry.1 List.mem_cons_self rfl

/-! ## The comments put in again -/

section Placed

variable {front mid back gap gapEnd target : Text} {again : Page} {params : List Param}
  (htemplate : Template.build text source = .ok template)
  (hpage : Page.build text' source' = .ok { page with params := params })
  (h : Enclosed text template page)
  (hmade : Made text template page front mid back gap gapEnd)
  (hagain : Page.build (merge template page).text target = .ok again)

include hpage hmade hagain

theorem binding_again : again.binding.start = (front ++ gap).length ∧
    again.text.take again.binding.start = front ++ gap := by
  obtain ⟨body, hbody, hkind, -, hraw⟩ :=
    Page.exists_body_of_bindingOf (Page.bindingOf_of_build hpage)
  have htext : (merge template page).text = (front ++ gap) ++ (wrap body ++
      (mid ++ (ending page gapEnd ++ back))) := by
    rw [(text_merge_of_framed hmade.framed hmade.anchor hmade.endAnchor).2, hraw]
    simp
  have hsilent : Silent (Says [.binding]) (front ++ gap) := by
    intro body' hbody' hsaid
    rw [bodies_append_of_no_end front
      (Text.not_mem_of_isBlank hmade.gap_isBlank (by decide))] at hbody'
    exact hmade.front_silent body' hbody' (Says.mono (by decide) hsaid)
  obtain ⟨hstart, -⟩ := Page.binding_of_split hbody hkind hsilent (htext ▸ hagain)
  refine ⟨hstart, ?_⟩
  rw [(Page.bindingEndOf_of_build hagain).1, htext, hstart, List.take_left]

include htemplate h in
theorem bindingEnd_again :
    (∀ bindingEnd ∈ again.bindingEnd?,
      bindingEndAnchor again bindingEnd = ⟨some htmlTag, 1, gapEnd⟩) ∧
      ending again gapEnd = ending page gapEnd := by
  obtain ⟨-, hendAgain, -⟩ := Page.bindingEndOf_of_build hagain
  have hlaid := silent_assemble htemplate (h.lacks.mono (List.subset_append_right _ _)) h.undescribed
    h.values h.contents
  rcases ending_cases hpage gapEnd with
    ⟨hnone, hending⟩ | ⟨bindingEnd, bodyEnd, -, hbodyEnd, hkindEnd, -, hending⟩
  · have hnoneAgain : again.bindingEnd? = none := by
      rw [hendAgain, Page.bindingEndOf?, List.find?_eq_none]
      intro token htoken hp
      obtain ⟨body, hbody, hkind, -⟩ := exists_body_of_mem_tokensFrom htoken
      rw [Bool.and_eq_true, decide_eq_true_eq] at hp
      rw [hp.1] at hkind
      rcases hmade.mem_bodies hpage hbody with hbinding | ⟨-, hsome⟩ | hmem
      · rw [hkind] at hbinding
        cases hbinding
      · exact hsome hnone
      · exact hlaid body hmem ⟨_, List.mem_cons_self, hkind⟩
    constructor
    · intro bindingEnd hmem
      rw [hnoneAgain] at hmem
      cases hmem
    · rw [hending, ending, hnoneAgain]
      rfl
  · obtain ⟨body, hbody, hkind, -, hraw⟩ :=
      Page.exists_body_of_bindingOf (Page.bindingOf_of_build hpage)
    obtain ⟨hstart, -⟩ := binding_again hpage hmade hagain
    have htext : (merge template page).text =
        (front ++ ((gap ++ wrap body) ++ mid)) ++ (wrap bodyEnd ++ (gapEnd ++ back)) := by
      rw [(text_merge_of_framed hmade.framed hmade.anchor hmade.endAnchor).2, hraw, hending]
      simp
    have hsilent : Silent (Says [.bindingEnd]) (front ++ ((gap ++ wrap body) ++ mid)) := by
      intro body' hbody' hsaid
      rw [isInlay_blanks_wrap hmade.gap_isBlank hbody, List.mem_append, List.mem_cons] at hbody'
      rcases hbody' with hfront | rfl | hmidBody
      · exact hmade.front_silent body' hfront (Says.mono (by decide) hsaid)
      · rw [says_iff_mem hkind] at hsaid
        cases List.mem_singleton.mp hsaid
      · rw [hmade.framed.text_eq] at hlaid
        exact hlaid.right.left body' hmidBody hsaid
    obtain ⟨token, htoken, htokenRaw, hafter⟩ := Page.exists_bindingEnd_of_split hbodyEnd hkindEnd
      hsilent (htext ▸ hagain) (by
        simp only [hstart, List.length_append, length_wrap]
        omega)
    refine ⟨fun other hother => ?_, ?_⟩
    · rw [htoken] at hother
      obtain rfl := Option.some.inj hother
      exact bindingEndAnchor_eq hafter hmade.gapEnd_isBlank hmade.back_closings
    · rw [hending, ending, htoken, ← htokenRaw]
      rfl

end Placed

end Merge

/-- A page that has been merged with an enclosed template is merged as it was before, with this
template or another one, if that is laid out as for the page it was. -/
theorem Merge.text_merge_again {text source text' source' target : Text}
    {template other : Template} {page again : Page} {params : List Param}
    (htemplate : Template.build text source = .ok template)
    (hpage : Page.build text' source' = .ok { page with params := params })
    (h : Enclosed text template page) {front mid back gap gapEnd : Text}
    (hmade : Made text template page front mid back gap gapEnd)
    (hagain : Page.build (merge template page).text target = .ok again)
    (hraw : again.binding.raw = page.binding.raw) {front' mid' back' : Text}
    (hframed : (assemble other (Segment.contents page.segments) page.params).1.Framed htmlTag front'
      mid' back')
    (hassemble : (assemble other (Segment.contents again.segments) again.params).1 =
      (assemble other (Segment.contents page.segments) page.params).1) :
    (merge other again).text = (merge other page).text := by
  obtain ⟨-, hbefore⟩ := binding_again hpage hmade hagain
  have hanchor : bindingAnchor again = ⟨some htmlTag, 1, gap⟩ :=
    bindingAnchor_eq hbefore hmade.gap_isBlank hmade.framed.starts
  obtain ⟨hendAnchor, hending⟩ := bindingEnd_again htemplate hpage h hmade hagain
  rw [(text_merge_of_framed (hassemble ▸ hframed) hanchor hendAnchor).2,
    (text_merge_of_framed hframed hmade.anchor hmade.endAnchor).2, hraw, hending]

/-- Merging a merged page again does not change it. -/
theorem merge_merge {text source text' source' : Text} {template : Template} {page : Page}
    (htemplate : Template.build text source = .ok template)
    (hpage : Page.build text' source' = .ok page) (h : Merge.Canonical text template page)
    (target : Text) :
    ∃ again, Page.build (merge template page).text target = .ok again ∧
      (merge template again).text = (merge template page).text := by
  obtain ⟨front, mid, back, gap, gapEnd, hmade⟩ := Merge.exists_made htemplate h.enclosed
  obtain ⟨again, hagain, hraw, hcontents⟩ :=
    Merge.exists_page htemplate hpage (h.enclosed.clean hmade) target
  refine ⟨again, hagain, ?_⟩
  refine Merge.text_merge_again htemplate hpage h.enclosed hmade hagain hraw hmade.framed ?_
  rw [(Page.bindingEndOf_of_build hagain).2.2]
  refine (h.concordant hpage).assemble_again htemplate (hmade.setsAlike hpage) fun entry hentry => ?_
  rw [Merge.layRegion_eq hagain, Merge.layRegion_eq hpage,
    Merge.region?_of_contents (Merge.nodup_contents htemplate) hcontents hentry, Option.getD_some]

/-- A template with a region and a parameter between its outermost tags. -/
def titled : Text :=
  Text.concat ["<html>", wrap "TemplateParam name=\"id\" type=\"text\" value=\"x\"", "<title>",
    wrap "TemplateBeginEditable name=\"t\"", wrap "TemplateEndEditable", "</title></html>"]

/-- A page that is bound between its outermost tags. -/
def boundAround : Text :=
  Text.concat ["<html> ", wrap "InstanceBegin template=\"/t.dwt\"",
    wrap "InstanceParam name=\"id\" value=\"home\"", wrap "InstanceBeginEditable name=\"t\"", "Home",
    wrap "InstanceEndEditable", wrap "InstanceEnd", "\n</html>"]

theorem merge_merge_titled : ∃ template page again,
    Template.build titled [] = .ok template ∧ Page.build boundAround [] = .ok page ∧
      Page.build (merge template page).text [] = .ok again ∧
      (merge template again).text = (merge template page).text := by
  have hrun : passes titled boundAround (fun template page =>
      decide (Merge.Canonical titled template page)) = true := by
    rw [titled, boundAround]
    repeat rw [Text.ofString_ofList]
    decide +kernel
  obtain ⟨template, page, htemplate, hpage, hcanonical⟩ := exists_of_passes hrun
  obtain ⟨again, hagain, heq⟩ := merge_merge htemplate hpage (of_decide_eq_true hcanonical) []
  exact ⟨template, page, again, htemplate, hpage, hagain, heq⟩

end Stencil
