import Stencil.Proofs.Merge.Stable

/-!
# A page's history leaves no trace

What a page looked like before it was last merged does not matter (`merge_merge_other`): merging a
page with one template and then with another gives what merging with the other one alone gives, as
long as the first neither takes away nor adds content that the second asks for. Templates without
parameters are laid out the same for all pages with the same contents (`assemble_eq_of_isPlain`),
and the binding comments of the page in between stand just as those of the original do
(`text_merge_again`).
-/

namespace Stencil

open Marker
open Assembly (htmlTag)

namespace Merge

/-- A template without parameters, whose regions stand between its outermost tags. -/
structure IsPlain (text : Text) (template : Template) : Prop where
  lacks : Lacks (.param .template :: pageKinds) text
  undescribed : ∀ segment ∈ template.segments, segment.isRegion = false →
    Skeleton.infoForm.findAll segment.text = []
  bareMarkers : BareMarkers text
  framed : template.IsFramed

/-- A page that is bound between its outermost tags, with nothing in its regions that would end the
binding. -/
structure IsBoundAround (page : Page) : Prop where
  bound : Tag.OpensAlone htmlTag (page.text.take page.binding.start)
  ended : ∀ bindingEnd ∈ page.bindingEnd?,
    Tag.ClosesAlone htmlTag (page.text.drop bindingEnd.stop)
  contents : ∀ entry ∈ Segment.contents page.segments, Lacks [.bindingEnd] entry.2

instance (text : Text) (template : Template) : Decidable (IsPlain text template) :=
  decidable_of_iff (Lacks (.param .template :: pageKinds) text ∧ (∀ segment ∈ template.segments,
      segment.isRegion = false → Skeleton.infoForm.findAll segment.text = []) ∧
      BareMarkers text ∧ template.IsFramed)
    ⟨fun ⟨h₁, h₂, h₃, h₄⟩ => ⟨h₁, h₂, h₃, h₄⟩, fun ⟨h₁, h₂, h₃, h₄⟩ => ⟨h₁, h₂, h₃, h₄⟩⟩

instance (page : Page) : Decidable (IsBoundAround page) :=
  decidable_of_iff (Tag.OpensAlone htmlTag (page.text.take page.binding.start) ∧
      (∀ bindingEnd ∈ page.bindingEnd?,
        Tag.ClosesAlone htmlTag (page.text.drop bindingEnd.stop)) ∧
      ∀ entry ∈ Segment.contents page.segments, Lacks [.bindingEnd] entry.2)
    ⟨fun ⟨h₁, h₂, h₃⟩ => ⟨h₁, h₂, h₃⟩, fun ⟨h₁, h₂, h₃⟩ => ⟨h₁, h₂, h₃⟩⟩

variable {text source text' source' : Text} {template other : Template} {page : Page}

/-- To a template without parameters those of a page do not matter. -/
theorem IsPlain.enclosed (h : IsPlain text template) (hpage : IsBoundAround page) :
    Enclosed text template { page with params := [] } where
  lacks := h.lacks.mono (by decide)
  undescribed := h.undescribed
  bareMarkers := h.bareMarkers
  framed := h.framed
  bound := hpage.bound
  ended := hpage.ended
  values := List.forall_mem_nil _
  contents := hpage.contents

/-- What is laid out for a template without parameters is settled by what its regions hold. -/
theorem assemble_eq_of_isPlain (htemplate : Template.build text source = .ok template)
    (h : IsPlain text template) {contents contents' : List (Text × Text)}
    {params params' : List Param}
    (hcontents : ∀ name ∈ Segment.regionNames template.segments, ∀ default,
      (layRegion contents name default).1 = (layRegion contents' name default).1) :
    (assemble template contents params).1 = (assemble template contents' params').1 := by
  refine assemble_eq_of_lacks htemplate (h.lacks.mono (by decide)) fun entry hentry => ?_
  refine hcontents entry.1 ?_ entry.2
  rw [Segment.regionNames_eq_map_contents]
  exact List.mem_map_of_mem hentry

theorem merge_params (htemplate : Template.build text source = .ok template)
    (h : IsPlain text template) (params : List Param) :
    (merge template { page with params := params }).text = (merge template page).text := by
  have hassemble : (assemble template (Segment.contents page.segments) params).1 =
      (assemble template (Segment.contents page.segments) page.params).1 :=
    assemble_eq_of_isPlain htemplate h fun _ _ _ => rfl
  rw [text_merge_eq, text_merge_eq, ended, ended]
  dsimp only
  rw [hassemble]
  rfl

/-- A region that both templates declare, or that the page lacks, is found in the page between as it
is found in the page. -/
theorem layRegion_again {again : Page} {target : Text}
    (hpage : Page.build text' source' = .ok page)
    (hagain : Page.build (merge template { page with params := [] }).text target = .ok again)
    (hnodup : ((Segment.contents template.segments).map Prod.fst).Nodup)
    (hcontents : Segment.contents again.segments =
      (Segment.contents template.segments).map fun entry =>
        (entry.1, (Segment.region? page.segments entry.1).getD entry.2)) {name : Text}
    (hname : name ∈ Segment.regionNames template.segments ↔
      name ∈ Segment.regionNames page.segments) (default : Text) :
    (layRegion (Segment.contents again.segments) name default).1 =
      (layRegion (Segment.contents page.segments) name default).1 := by
  rw [layRegion_eq hagain, layRegion_eq hpage]
  rw [Segment.regionNames_eq_map_contents, Segment.regionNames_eq_map_contents] at hname
  by_cases hmem : name ∈ (Segment.contents template.segments).map Prod.fst
  · obtain ⟨⟨name', own⟩, hentry, hfst⟩ := List.mem_map.mp hmem
    obtain rfl : name' = name := hfst
    have hregion := region?_of_contents hnodup hcontents hentry
    obtain ⟨current, hcurrent⟩ : ∃ current, Segment.region? page.segments name' = some current := by
      obtain ⟨entry, hentry', hfst'⟩ := List.mem_map.mp (hname.mp hmem)
      refine Option.ne_none_iff_exists'.mp fun hnone => ?_
      exact bne_iff_ne.mp (List.lookup_eq_none_iff.mp hnone entry hentry') hfst'.symm
    rw [hregion, hcurrent]
    rfl
  · have hnone : ∀ {contents : List (Text × Text)}, name ∉ contents.map Prod.fst →
        contents.lookup name = none := fun hnot => List.lookup_eq_none_iff.mpr fun entry hentry => by
      rw [bne_iff_ne]
      rintro rfl
      exact hnot (List.mem_map_of_mem hentry)
    rw [Segment.region?, Segment.region?, hnone (fun h => hmem (hname.mpr h)), hnone]
    rw [hcontents, List.map_map]
    exact hmem

end Merge

/-- Merging with one template and then with another is merging with the other one, where the first
declares just those of the regions of the other that the page has. -/
theorem merge_merge_other {text source text' source' text'' source'' : Text}
    {template other : Template} {page : Page}
    (htemplate : Template.build text source = .ok template)
    (hother : Template.build text' source' = .ok other)
    (hpage : Page.build text'' source'' = .ok page) (h : Merge.IsPlain text template)
    (h' : Merge.IsPlain text' other) (hbound : Merge.IsBoundAround page)
    (hregions : ∀ name ∈ Segment.regionNames other.segments,
      (name ∈ Segment.regionNames template.segments ↔ name ∈ Segment.regionNames page.segments))
    (target : Text) :
    ∃ again, Page.build (merge template page).text target = .ok again ∧
      (merge other again).text = (merge other page).text := by
  have hpage' : Page.build text'' source'' =
      .ok { ({ page with params := [] } : Page) with params := page.params } := hpage
  have henclosed := h.enclosed hbound
  have henclosed' := h'.enclosed hbound
  obtain ⟨front, mid, back, gap, gapEnd, hmade⟩ := Merge.exists_made htemplate henclosed
  obtain ⟨front', mid', back', gap', gapEnd', hmade'⟩ := Merge.exists_made hother henclosed'
  obtain ⟨again, hagain, hraw, hcontents⟩ :=
    Merge.exists_page htemplate hpage' (henclosed.clean hmade) target
  refine ⟨again, by rw [← Merge.merge_params htemplate h []]; exact hagain, ?_⟩
  -- the other template is laid out alike
  have hassemble : (Merge.assemble other (Segment.contents again.segments) again.params).1 =
      (Merge.assemble other (Segment.contents page.segments) []).1 :=
    Merge.assemble_eq_of_isPlain hother h' fun name hname =>
      Merge.layRegion_again hpage hagain (Merge.nodup_contents htemplate) hcontents
        (hregions name hname)
  have hparams : (merge other { page with params := [] }).text = (merge other page).text :=
    Merge.merge_params hother h' []
  rw [← hparams]
  exact Merge.text_merge_again htemplate hpage' henclosed hmade hagain hraw hmade'.framed hassemble

/-- A template of one region. -/
def oneRegion : Text :=
  Text.concat ["<html><b>", wrap "TemplateBeginEditable name=\"t\"", "T", wrap "TemplateEndEditable",
    "</b></html>"]

/-- The same region in other surroundings, and one that is new. -/
def otherSurroundings : Text :=
  Text.concat ["<html lang=\"en\"><p>", wrap "TemplateBeginEditable name=\"new\"", "N",
    wrap "TemplateEndEditable", wrap "TemplateBeginEditable name=\"t\"", wrap "TemplateEndEditable",
    "</p></html>"]

theorem merge_merge_other_surroundings : ∃ template other page again,
    Template.build oneRegion [] = .ok template ∧ Template.build otherSurroundings [] = .ok other ∧
      Page.build boundAround [] = .ok page ∧
      Page.build (merge template page).text [] = .ok again ∧
      (merge other again).text = (merge other page).text := by
  have hrun : passes oneRegion boundAround (fun template page =>
      decide (Merge.IsPlain oneRegion template ∧ Merge.IsBoundAround page ∧
        Segment.regionNames template.segments = [("t" : Text)] ∧
        Segment.regionNames page.segments = [("t" : Text)])) = true := by
    rw [oneRegion, boundAround]
    repeat rw [Text.ofString_ofList]
    decide +kernel
  have hrun' : passes otherSurroundings boundAround (fun other _ =>
      decide (Merge.IsPlain otherSurroundings other)) = true := by
    rw [otherSurroundings, boundAround]
    repeat rw [Text.ofString_ofList]
    decide +kernel
  obtain ⟨template, page, htemplate, hpage, htest⟩ := exists_of_passes hrun
  obtain ⟨other, -, hother, -, htest'⟩ := exists_of_passes hrun'
  obtain ⟨hplain, hbound, hnames, hnames'⟩ := of_decide_eq_true htest
  obtain ⟨again, hagain, heq⟩ := merge_merge_other htemplate hother hpage hplain
    (of_decide_eq_true htest') hbound (fun name _ => by rw [hnames, hnames']) []
  exact ⟨template, other, page, again, htemplate, hother, hpage, hagain, heq⟩

end Stencil
