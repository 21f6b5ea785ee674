import Stencil.Merge
import Stencil.Proofs.Assembly.Spots
import Stencil.Proofs.Document.Filling
import Stencil.Proofs.Skeleton.Info

/-!
# The template laid out

`assemble` keeps an assembly, and an assembly knows nothing of regions. Here the template that has
been laid out is an outline again: that of the template with its comments converted and its contents
exchanged (`assemble_eq`, `segments_onPage`), and it fits the page's side (`fits_onPage`). So places
found in the assembly are places in the plain text of a page.
-/

namespace Stencil

open Marker

namespace Assembly

/-- The indexes of the literals among segments, the first of which has index `i`. -/
def skeletonFrom (i : Nat) : List Segment → List Nat
  | [] => []
  | .literal _ :: segments => i :: skeletonFrom (i + 1) segments
  | .region .. :: segments => skeletonFrom (i + 1) segments

/-- Segments laid as pieces, the literals as skeleton. -/
def ofSegments (segments : List Segment) : Assembly :=
  ⟨segments.map Segment.text, skeletonFrom 0 segments⟩

theorem text_ofSegments (segments : List Segment) :
    (ofSegments segments).text = Segment.join segments := by
  rw [text, ofSegments, Segment.join, List.flatMap_def]

theorem skeletonFrom_congr {segments others : List Segment}
    (h : segments.map Segment.isRegion = others.map Segment.isRegion) (i : Nat) :
    skeletonFrom i segments = skeletonFrom i others := by
  induction segments generalizing others i with
  | nil =>
      obtain rfl := List.map_eq_nil_iff.mp h.symm
      rfl
  | cons segment segments ih =>
      cases others with
      | nil => cases h
      | cons other others =>
          obtain ⟨hfirst, hrest⟩ := List.cons.inj h
          have hnext := ih hrest (i + 1)
          cases segment with
          | literal =>
              cases other with
              | literal => rw [skeletonFrom, skeletonFrom, hnext]
              | region => cases hfirst
          | region =>
              cases other with
              | literal => cases hfirst
              | region => rw [skeletonFrom, skeletonFrom, hnext]

theorem exists_of_mem_skeletonFrom {i j : Nat} {segments : List Segment}
    (h : j ∈ skeletonFrom i segments) :
    ∃ front text back, segments = front ++ .literal text :: back ∧ j = i + front.length := by
  induction segments generalizing i with
  | nil => cases h
  | cons segment segments ih =>
      have hlater : j ∈ skeletonFrom (i + 1) segments → ∃ front text back,
          segment :: segments = front ++ .literal text :: back ∧ j = i + front.length := by
        intro h
        obtain ⟨front, text, back, rfl, rfl⟩ := ih h
        exact ⟨segment :: front, text, back, rfl, by rw [List.length_cons]; omega⟩
      cases segment with
      | literal text =>
          rcases List.mem_cons.mp h with rfl | h
          · exact ⟨[], text, segments, rfl, rfl⟩
          · exact hlater h
      | region name content span => exact hlater h

/-- A spot in the skeleton cuts a literal. -/
theorem exists_literal_of_cuts {segments : List Segment} {tail : List Text} {spot : Spot}
    {pieces others : List Text} {left right : Text}
    (hcuts : Cuts ⟨segments.map Segment.text ++ tail, skeletonFrom 0 segments⟩ spot pieces left
      right others) (hmem : spot.piece ∈ skeletonFrom 0 segments) :
    ∃ front back, segments = front ++ .literal (left ++ right) :: back ∧
      pieces = front.map Segment.text ∧ others = back.map Segment.text ++ tail := by
  obtain ⟨front, text, back, rfl, hlength⟩ := exists_of_mem_skeletonFrom hmem
  have hpieces := hcuts.pieces_eq
  rw [List.map_append, List.map_cons, List.append_assoc, List.cons_append] at hpieces
  obtain ⟨hfront, hrest⟩ := List.append_inj hpieces
    (by rw [List.length_map, ← hcuts.piece_eq, hlength, Nat.zero_add])
  obtain ⟨htext, hback⟩ := List.cons.inj hrest
  exact ⟨front, back, by rw [← htext]; rfl, hfront.symm, hback.symm⟩

end Assembly

namespace Merge

/-- A segment of a template as it is laid. -/
def laySegment (contents : List (Text × Text)) (params : List Param) : Segment → Segment
  | .literal text => .literal (Skeleton.toPage params text)
  | .region name default span => .region name (layRegion contents name default).1 span

theorem layFrom_eq (contents : List (Text × Text)) (params : List Param) (segments : List Segment)
    (laid : Assembly) : (layFrom contents params laid segments).1 =
      ⟨laid.pieces ++ (segments.map (laySegment contents params)).map Segment.text,
        laid.skeleton ++ Assembly.skeletonFrom laid.pieces.length
          (segments.map (laySegment contents params))⟩ := by
  induction segments generalizing laid with
  | nil => simp [layFrom, Assembly.skeletonFrom]
  | cons segment segments ih =>
      cases segment with
      | literal text =>
          rw [layFrom, ih]
          simp [Assembly.addSkeleton, laySegment, Assembly.skeletonFrom, Segment.text]
      | region name default span =>
          rw [layFrom]
          simp [ih, Assembly.addRegion, laySegment, Assembly.skeletonFrom, Segment.text]

theorem assemble_eq (template : Template) (contents : List (Text × Text)) (params : List Param) :
    (assemble template contents params).1 =
      Assembly.ofSegments (template.segments.map (laySegment contents params)) := by
  rw [assemble, layFrom_eq]
  rfl

/-- Every region of the template is reported, in order. -/
theorem changes_layFrom (contents : List (Text × Text)) (params : List Param)
    (segments : List Segment) (laid : Assembly) : (layFrom contents params laid segments).2 =
      (Segment.contents segments).map fun entry => (layRegion contents entry.1 entry.2).2 := by
  induction segments generalizing laid with
  | nil => rfl
  | cons segment segments ih =>
      cases segment with
      | literal text => exact ih _
      | region name default span =>
          rw [layFrom]
          simp only [ih]
          rfl

/-! ## The outline of what is laid -/

/-- A block of a template as it is laid. -/
def layBlock (contents : List (Text × Text)) (params : List Param) (b : Block) : Block :=
  { opening := Skeleton.convertBody params b.opening
    content := (layRegion contents b.name b.content).1
    closing := Skeleton.convertBody params b.closing
    behind := Skeleton.converted params b.behind }

/-- The outline of a template as it is laid. -/
def layOutline (contents : List (Text × Text)) (params : List Param) (o : Outline) : Outline :=
  ⟨Skeleton.converted params o.head, o.blocks.map (layBlock contents params)⟩

section LayOutline

variable {contents : List (Text × Text)} {params : List Param}

theorem name_layBlock {b : Block} (h : b.Fits .template) :
    (layBlock contents params b).name = b.name :=
  (Skeleton.convertBody_region h.opening_kind (Or.inl rfl) params).2

theorem segmentsFrom_layOutline {blocks : List Block} (hfit : ∀ b ∈ blocks, b.Fits .template) :
    ∀ {lead lead' plain : Text},
      (∀ t, Skeleton.converted params (lead ++ t) = lead' ++ Skeleton.converted params t) →
      (∀ text, Segment.literal text ∈ Outline.segmentsFrom lead plain blocks →
        Skeleton.toPage params text = Skeleton.converted params text) →
      (Outline.segmentsFrom lead plain blocks).map (laySegment contents params) =
        Outline.segmentsFrom lead' (Skeleton.converted params plain)
          (blocks.map (layBlock contents params)) := by
  induction blocks with
  | nil =>
      intro lead lead' plain hlead htoPage
      rw [Outline.segmentsFrom, Segment.literals] at htoPage ⊢
      rw [List.map_nil, Outline.segmentsFrom, Segment.literals, ← hlead]
      by_cases hempty : (lead ++ plain).isEmpty = true
      · rw [if_pos hempty, List.isEmpty_iff.mp hempty]
        rfl
      · have hne : ¬ (Skeleton.converted params (lead ++ plain)).isEmpty = true := by
          rw [List.isEmpty_iff, Skeleton.converted_eq_nil_iff, ← List.isEmpty_iff]
          exact hempty
        rw [if_neg hempty] at htoPage ⊢
        rw [if_neg hne, List.map_singleton, laySegment, htoPage _ List.mem_cons_self]
  | cons b blocks ih =>
      intro lead lead' plain hlead htoPage
      have hb := hfit b List.mem_cons_self
      rw [Outline.segmentsFrom] at htoPage ⊢
      have hliteral := htoPage _ List.mem_cons_self
      have hwrap : ∀ t, Skeleton.converted params (wrap b.closing ++ t) =
          wrap (Skeleton.convertBody params b.closing) ++ Skeleton.converted params t := fun t =>
        Skeleton.converted_insert params [] hb.closing_isBody t
      have hopening : Skeleton.converted params (plain ++ wrap b.opening) =
          Skeleton.converted params plain ++ wrap (Skeleton.convertBody params b.opening) := by
        have hinsert := Skeleton.converted_insert params plain hb.opening_isBody []
        simpa [Skeleton.converted_eq_self params (t := []) rfl] using hinsert
      rw [List.map_cons, List.map_cons, laySegment, laySegment, hliteral, hlead, hopening,
        ih (fun b' hb' => hfit b' (List.mem_cons_of_mem _ hb')) hwrap fun text hmem =>
          htoPage text (List.mem_cons_of_mem _ (List.mem_cons_of_mem _ hmem)),
        List.map_cons, Outline.segmentsFrom, name_layBlock hb]
      rfl

/-- The template laid out segment by segment is the outline laid out. -/
theorem segments_layOutline {o : Outline} (h : o.Fits .template)
    (htoPage : ∀ text, Segment.literal text ∈ o.segments →
      Skeleton.toPage params text = Skeleton.converted params text) :
    o.segments.map (laySegment contents params) = (layOutline contents params o).segments :=
  segmentsFrom_layOutline h.blocks_fit (fun _ => rfl) htoPage

/-- A text without regions that is silent about some kinds stays so when it is converted, unless
parameters of pages are among them. -/
theorem silent_converted_of_free {kinds : List Kind} {t : Text}
    (hvalues : Skeleton.AreValues params) (hparam : Kind.param .page ∉ kinds)
    (hfree : Free .template t) (hsilent : Silent (Says kinds) t) :
    Silent (Says kinds) (Skeleton.converted params t) := by
  have hboth : Silent (fun body => Says kinds body ∨ Says (regionKinds .template) body) t :=
    fun body hb hsaid => hsaid.elim (hsilent body hb) (hfree body hb)
  refine Skeleton.silent_converted hvalues.areQuiet ?_ hboth
  rintro body ⟨kind, hmem, hkind⟩
  rcases Skeleton.kind?_convertBody hkind with h | rfl | ⟨-, h⟩ | ⟨-, h⟩
  · exact Or.inl ⟨kind, hmem, h⟩
  · exact absurd hmem hparam
  · exact Or.inr (says_regionKinds_iff.mpr (Or.inl h))
  · exact Or.inr (says_regionKinds_iff.mpr (Or.inr h))

theorem free_layRegion {Q : Text → Prop} (hcontents : ∀ entry ∈ contents, Silent Q entry.2)
    {name default : Text} (hdefault : Silent Q default) :
    Silent Q (layRegion contents name default).1 := by
  rw [layRegion]
  split
  · next current hcurrent =>
    obtain ⟨entry, hentry, rfl⟩ := Option.map_eq_some_iff.mp hcurrent
    exact hcontents entry (List.mem_filter.mp (List.mem_of_getLast? hentry)).1
  · exact hdefault

theorem mem_bodies_layRegion {name default body : Text}
    (h : body ∈ bodies (layRegion contents name default).1) :
    body ∈ bodies default ∨ ∃ entry ∈ contents, body ∈ bodies entry.2 := by
  rw [layRegion] at h
  split at h
  · next current hcurrent =>
    obtain ⟨entry, hentry, rfl⟩ := Option.map_eq_some_iff.mp hcurrent
    exact Or.inr ⟨entry, (List.mem_filter.mp (List.mem_of_getLast? hentry)).1, h⟩
  · exact Or.inl h

/-- What the comments of a laid out template say comes from it, converted or as it was, or from the
page. -/
theorem mem_bodies_layOutline {o : Outline} (h : o.Fits .template) (hvalues : Skeleton.AreValues params)
    {body : Text} (hbody : body ∈ bodies (layOutline contents params o).text) :
    (∃ b ∈ bodies o.text, body = Skeleton.convertBody params b) ∨ body ∈ bodies o.text ∨
      ∃ entry ∈ contents, body ∈ bodies entry.2 := by
  have hconverted : ∀ {t : Text}, (∀ b ∈ bodies t, b ∈ bodies o.text) →
      body ∈ bodies (Skeleton.converted params t) →
      ∃ b ∈ bodies o.text, body = Skeleton.convertBody params b := fun ht hb => by
    rw [Skeleton.bodies_converted hvalues.areQuiet] at hb
    obtain ⟨b, hmem, rfl⟩ := List.mem_map.mp hb
    exact ⟨b, ht b hmem, rfl⟩
  have hplain : bodies o.text = _ := Outline.bodies_text fun b hb =>
    ⟨(h.blocks_fit b hb).opening_isBody, (h.blocks_fit b hb).closing_isBody⟩
  rw [Outline.bodies_text, List.mem_append] at hbody
  · rcases hbody with hhead | hblocks
    · exact Or.inl (hconverted (fun b hb => mem_bodies_append_left hb _) hhead)
    · obtain ⟨b', hb', hbody⟩ := List.mem_flatMap.mp hblocks
      obtain ⟨b, hb, rfl⟩ := List.mem_map.mp hb'
      have hpart : ∀ part, part ∈ b.opening :: (bodies b.content ++ b.closing :: bodies b.behind) →
          part ∈ bodies o.text := fun part hpart => by
        rw [hplain]
        exact List.mem_append_right _ (List.mem_flatMap.mpr ⟨b, hb, hpart⟩)
      rw [List.mem_cons, List.mem_append, List.mem_cons] at hbody
      rcases hbody with rfl | hcontent | rfl | hbehind
      · exact Or.inl ⟨b.opening, hpart _ List.mem_cons_self, rfl⟩
      · rcases mem_bodies_layRegion hcontent with hdefault | hpage
        · exact Or.inr (Or.inl (hpart _ (by simp [hdefault])))
        · exact Or.inr (Or.inr hpage)
      · exact Or.inl ⟨b.closing, hpart _ (by simp), rfl⟩
      · exact Or.inl (hconverted (fun part hb => hpart part (by simp [hb])) hbehind)
  · intro b' hb'
    obtain ⟨b, hb, rfl⟩ := List.mem_map.mp hb'
    exact ⟨Skeleton.isBody_convertBody hvalues.areQuiet (h.blocks_fit b hb).opening_isBody,
      Skeleton.isBody_convertBody hvalues.areQuiet (h.blocks_fit b hb).closing_isBody⟩

/-- The template that has been laid out is a page, but for its binding. -/
theorem fits_layOutline {o : Outline} (h : o.Fits .template) (hvalues : Skeleton.AreValues params)
    (hfree : Free .page o.text) (hcontents : ∀ entry ∈ contents, Free .page entry.2) :
    (layOutline contents params o).Fits .page := by
  refine ⟨silent_converted_of_free hvalues (by decide) h.head_free (Silent.left hfree), ?_, ?_⟩
  · intro b' hb'
    obtain ⟨b, hb, rfl⟩ := List.mem_map.mp hb'
    obtain ⟨u, v, htext⟩ := Outline.exists_text_eq hb
    have hfit := h.blocks_fit b hb
    have hblock : Free .page b.text := Silent.left (Silent.right (htext ▸ hfree))
    have hinner : Free .page (b.content ++ (wrap b.closing ++ b.behind)) := Silent.right hblock
    exact {
      opening_isBody := Skeleton.isBody_convertBody hvalues.areQuiet hfit.opening_isBody
      opening_kind := (Skeleton.convertBody_region hfit.opening_kind (Or.inl rfl) params).1
      content_free := free_layRegion hcontents (Silent.left hinner)
      closing_isBody := Skeleton.isBody_convertBody hvalues.areQuiet hfit.closing_isBody
      closing_kind := (Skeleton.convertBody_region hfit.closing_kind (Or.inr rfl) params).1
      behind_free := silent_converted_of_free hvalues (by decide) hfit.behind_free
        (Silent.right (Silent.right hinner)) }
  · have hnames : (layOutline contents params o).blocks.map Block.name = o.blocks.map Block.name := by
      rw [layOutline, List.map_map]
      exact List.map_congr_left fun b hb => name_layBlock (h.blocks_fit b hb)
    rw [hnames]
    exact h.nodup

theorem bare_layOutline {o : Outline} (contents : List (Text × Text)) (hvalues : Skeleton.AreValues params)
    (hbare : Outline.Bare o.blocks) : Outline.Bare (layOutline contents params o).blocks := by
  intro b' hb'
  obtain ⟨b, hb, rfl⟩ := List.mem_map.mp hb'
  exact ⟨Skeleton.isBare_convertBody hvalues (hbare b hb).1,
    Skeleton.isBare_convertBody hvalues (hbare b hb).2⟩

end LayOutline

end Merge

end Stencil
