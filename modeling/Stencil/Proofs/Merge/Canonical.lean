import Stencil.Proofs.Merge.Anchors
import Stencil.Proofs.Merge.Content
import Stencil.Proofs.Skeleton.Declarations
import Stencil.Proofs.Skeleton.Tags

/-!
# Canonical documents

The documents that merging is meant for: a template whose regions lie between its first `html` start
tag and its last closing one, with parameters that are declared in full, and a page that is bound
right behind its `html` tag up to right before the closing one (`Canonical`). Of the template that is
laid out for such a page only the stretch between the two tags matters, and the binding comments
are written at its two ends (`text_merge_of_framed`).
-/

namespace Stencil

open Marker
open Assembly (htmlTag)

/-- The kinds of markers that belong to pages. -/
def pageKinds : List Kind :=
  [.regionBegin .page, .regionEnd .page, .param .page, .binding, .bindingEnd]

namespace Tag

/-- A text with one start tag of a name, at its end but for blanks. -/
def OpensAlone (name t : Text) : Prop :=
  ∃ stop ∈ startsOf name t, startsOf name t = [stop] ∧ Text.isBlank (t.drop stop) = true

/-- A text with one closing tag of a name, at its beginning but for blanks. -/
def ClosesAlone (name t : Text) : Prop :=
  ∃ start ∈ closingsOf name t, closingsOf name t = [start] ∧ Text.isBlank (t.take start) = true

instance (name t : Text) : Decidable (OpensAlone name t) :=
  inferInstanceAs (Decidable (∃ stop ∈ _, _ ∧ _))

instance (name t : Text) : Decidable (ClosesAlone name t) :=
  inferInstanceAs (Decidable (∃ start ∈ _, _ ∧ _))

end Tag

namespace Template

/-- The text up to the end of the first `html` start tag, if the first literal has one. -/
def front? (template : Template) : Option Text :=
  match template.segments.head? with
  | some (.literal first) => (Tag.startsOf htmlTag first).head?.map first.take
  | _ => none

/-- The text from the last closing `html` tag on, if the last literal has one. -/
def back? (template : Template) : Option Text :=
  match template.segments.getLast? with
  | some (.literal last) => (Tag.closingsOf htmlTag last).getLast?.map last.drop
  | _ => none

/-- All region markers stand between the first `html` start tag and the last closing one. -/
def IsFramed (template : Template) : Prop :=
  ∃ front ∈ template.front?, ∃ back ∈ template.back?, Lacks (regionKinds .template) front ∧
    Lacks (regionKinds .template) back ∧ front.length + back.length ≤ template.text.length

instance (template : Template) : Decidable template.IsFramed :=
  inferInstanceAs (Decidable (∃ front ∈ template.front?, ∃ back ∈ template.back?, _ ∧ _ ∧ _))

end Template

namespace Merge

/-- What the comments of a text say that declare parameters. -/
def declared (text : Text) : List Text :=
  (bodies text).filter fun body => kind? body = some (.param .template)

/-- The documents whose merge is a fixed point of merging. -/
structure Canonical (text : Text) (template : Template) (page : Page) : Prop where
  lacks : Lacks pageKinds text
  undescribed : ∀ segment ∈ template.segments, segment.isRegion = false →
    Skeleton.infoForm.findAll segment.text = []
  bareMarkers : BareMarkers text
  declarations : ∀ body ∈ declared text, IsDeclaration body
  names : ((declared text).map nameOf).Nodup
  framed : template.IsFramed
  bound : Tag.OpensAlone htmlTag (page.text.take page.binding.start)
  ended : ∀ bindingEnd ∈ page.bindingEnd?,
    Tag.ClosesAlone htmlTag (page.text.drop bindingEnd.stop)
  values : Skeleton.AreValues page.params
  contents : ∀ entry ∈ Segment.contents page.segments, Lacks [.bindingEnd, .param .page] entry.2

instance (text : Text) (template : Template) (page : Page) :
    Decidable (Canonical text template page) :=
  decidable_of_iff (Lacks pageKinds text ∧ (∀ segment ∈ template.segments,
      segment.isRegion = false → Skeleton.infoForm.findAll segment.text = []) ∧
      BareMarkers text ∧ (∀ body ∈ declared text, IsDeclaration body) ∧
      ((declared text).map nameOf).Nodup ∧ template.IsFramed ∧
      Tag.OpensAlone htmlTag (page.text.take page.binding.start) ∧
      (∀ bindingEnd ∈ page.bindingEnd?,
        Tag.ClosesAlone htmlTag (page.text.drop bindingEnd.stop)) ∧
      Skeleton.AreValues page.params ∧
      ∀ entry ∈ Segment.contents page.segments, Lacks [.bindingEnd, .param .page] entry.2)
    ⟨fun ⟨h₁, h₂, h₃, h₄, h₅, h₆, h₇, h₈, h₉, h₁₀⟩ =>
      ⟨h₁, h₂, h₃, h₄, h₅, h₆, h₇, h₈, h₉, h₁₀⟩,
      fun ⟨h₁, h₂, h₃, h₄, h₅, h₆, h₇, h₈, h₉, h₁₀⟩ =>
      ⟨h₁, h₂, h₃, h₄, h₅, h₆, h₇, h₈, h₉, h₁₀⟩⟩

/-- The template has its regions between its outermost tags, the page its binding comments, and no
other comment is taken for one of these. -/
structure Enclosed (text : Text) (template : Template) (page : Page) : Prop where
  lacks : Lacks (settling ++ [.bindingEnd]) text
  undescribed : ∀ segment ∈ template.segments, segment.isRegion = false →
    Skeleton.infoForm.findAll segment.text = []
  bareMarkers : BareMarkers text
  framed : template.IsFramed
  bound : Tag.OpensAlone htmlTag (page.text.take page.binding.start)
  ended : ∀ bindingEnd ∈ page.bindingEnd?,
    Tag.ClosesAlone htmlTag (page.text.drop bindingEnd.stop)
  values : Skeleton.AreValues page.params
  contents : ∀ entry ∈ Segment.contents page.segments, Lacks [.bindingEnd] entry.2

theorem Canonical.enclosed {text : Text} {template : Template} {page : Page}
    (h : Canonical text template page) : Enclosed text template page where
  lacks := h.lacks.mono (by decide)
  undescribed := h.undescribed
  bareMarkers := h.bareMarkers
  framed := h.framed
  bound := h.bound
  ended := h.ended
  values := h.values
  contents := fun entry hentry => (h.contents entry hentry).mono (by decide)

end Merge

namespace Marker

theorem BareMarkers.silent {t : Text} (h : BareMarkers t) : Silent IsRough t := by
  intro body hb ⟨hkind, hrough⟩
  obtain ⟨kind, hkind⟩ := Option.ne_none_iff_exists'.mp hkind
  exact hrough (h.isBare hb hkind)

end Marker

namespace Template

theorem join_segments {text source : Text} {template : Template}
    (h : Template.build text source = .ok template) : Segment.join template.segments = text := by
  obtain ⟨o, -, rfl, hsegments⟩ := Merge.exists_outline_of_template h
  rw [← Outline.join_segments, ← hsegments, Segment.join_map_unplaced]

theorem text_of_build {text source : Text} {template : Template}
    (h : Template.build text source = .ok template) : template.text = text := by
  rw [Template.build] at h
  obtain ⟨segments, -, rfl⟩ := exists_ok_of_map_ok h
  rfl

/-- The first literal up to its first `html` start tag. -/
theorem exists_of_front? {template : Template} {front : Text} (h : template.front? = some front) :
    ∃ rest more, template.segments = .literal (front ++ rest) :: more ∧
      Tag.startsOf htmlTag front = [front.length] := by
  rw [front?] at h
  split at h
  · next first hhead =>
    obtain ⟨stop, hstop, rfl⟩ := Option.map_eq_some_iff.mp h
    obtain ⟨more, hmore⟩ : ∃ more, template.segments = .literal first :: more := by
      cases hsegments : template.segments with
      | nil => rw [hsegments] at hhead; cases hhead
      | cons segment more =>
          rw [hsegments] at hhead
          exact ⟨more, by rw [Option.some.inj hhead]⟩
    refine ⟨first.drop stop, more, by rw [List.take_append_drop, hmore], ?_⟩
    have hle := ((Tag.startsOf_bounds _ _).1 stop (List.mem_of_head? hstop)).2
    rw [Tag.startsOf_take hstop, List.length_take, Nat.min_eq_left hle]
  · cases h

/-- The last literal from its last closing `html` tag on. -/
theorem exists_of_back? {template : Template} {back : Text} (h : template.back? = some back) :
    ∃ init rest v, template.segments = init ++ [.literal (rest ++ back)] ∧
      back = .char '<' :: .char '/' :: v ∧ Tag.closingsOf htmlTag back = [0] ∧
      (Tag.closingsOf htmlTag (rest ++ back)).getLast? = some rest.length := by
  rw [back?] at h
  split at h
  · next last hlast =>
    obtain ⟨start, hstart, rfl⟩ := Option.map_eq_some_iff.mp h
    obtain ⟨init, hinit⟩ := List.getLast?_eq_some_iff.mp hlast
    obtain ⟨u, v, rfl, rfl⟩ := Tag.closingsOf_split (List.mem_of_getLast? hstart)
    have hclosings := Tag.closingsOf_drop hstart
    rw [List.drop_left] at hclosings ⊢
    exact ⟨init, u, v, hinit, rfl, hclosings, hstart⟩
  · cases h

end Template

namespace Merge

theorem skeletonFrom_append_literal (segments : List Segment) (t : Text) (i : Nat) :
    Assembly.skeletonFrom i (segments ++ [.literal t]) =
      Assembly.skeletonFrom i segments ++ [i + segments.length] := by
  induction segments generalizing i with
  | nil => rfl
  | cons segment segments ih =>
      have hlength : i + 1 + segments.length = i + (segments.length + 1) := by omega
      cases segment with
      | literal t' =>
          rw [List.cons_append, Assembly.skeletonFrom, Assembly.skeletonFrom, ih, hlength]
          rfl
      | region name content span =>
          rw [List.cons_append, Assembly.skeletonFrom, Assembly.skeletonFrom, ih, hlength]
          rfl

section Laid

variable {template : Template} {params : List Param} (contents : List (Text × Text))

theorem mem_bodies_join {segments : List Segment} {t body : Text} (h : .literal t ∈ segments)
    (hbody : body ∈ bodies t) : body ∈ bodies (Segment.join segments) := by
  obtain ⟨before, behind, rfl⟩ := List.append_of_mem h
  rw [Segment.join_append, Segment.join_cons]
  exact mem_bodies_append_right (mem_bodies_append_left hbody _)

theorem silent_of_mem {Q : Text → Prop} {segments : List Segment} {t : Text}
    (h : Silent Q (Segment.join segments)) (hmem : .literal t ∈ segments) : Silent Q t :=
  fun body hbody => h body (mem_bodies_join hmem hbody)

/-- What is laid out between the two tags of a framed template. -/
theorem exists_framed (hvalues : Skeleton.AreValues params)
    (htoPage : ∀ t, .literal t ∈ template.segments →
      Skeleton.toPage params t = Skeleton.converted params t)
    (hsmooth : Silent IsRough (Segment.join template.segments))
    (hjoin : Segment.join template.segments = template.text) {front back : Text}
    (hfront : template.front? = some front) (hback : template.back? = some back)
    (hlength : front.length + back.length ≤ template.text.length) :
    ∃ mid, (assemble template contents params).1.Framed htmlTag (Skeleton.converted params front)
      mid (Skeleton.converted params back) := by
  obtain ⟨rest, more, hfirst, hstarts⟩ := Template.exists_of_front? hfront
  obtain ⟨init, rest', v, hlast, hopens, -, hclosings⟩ := Template.exists_of_back? hback
  have hfirstMem : .literal (front ++ rest) ∈ template.segments := by rw [hfirst]; simp
  have hlastMem : .literal (rest' ++ back) ∈ template.segments := by rw [hlast]; simp
  have hfirstSmooth := silent_of_mem hsmooth hfirstMem
  have hlastSmooth := silent_of_mem hsmooth hlastMem
  have hcutFirst : ∀ t, Silent IsRough (front ++ t) → Skeleton.converted params (front ++ t) =
      Skeleton.converted params front ++ Skeleton.converted params t := by
    obtain ⟨x, rfl⟩ := Tag.exists_end hstarts
    exact fun t ht => Skeleton.converted_append_of_end ht
  have hcutLast : ∀ t, Silent IsRough (t ++ back) → Skeleton.converted params (t ++ back) =
      Skeleton.converted params t ++ Skeleton.converted params back := by
    subst hopens
    exact fun t ht => Skeleton.converted_append_of_closing ht
  have hlaidFirst : template.segments.map (laySegment contents params) =
      .literal (Skeleton.converted params front ++ Skeleton.converted params rest) ::
        more.map (laySegment contents params) := by
    rw [hfirst, List.map_cons, laySegment, htoPage _ hfirstMem, hcutFirst _ hfirstSmooth]
  have hlaidLast : template.segments.map (laySegment contents params) =
      init.map (laySegment contents params) ++
        [.literal (Skeleton.converted params rest' ++ Skeleton.converted params back)] := by
    rw [hlast, List.map_append, List.map_singleton, laySegment, htoPage _ hlastMem,
      hcutLast _ hlastSmooth]
  obtain ⟨mid, hmid⟩ : ∃ mid, Segment.join (template.segments.map (laySegment contents params)) =
      Skeleton.converted params front ++ (mid ++ Skeleton.converted params back) := by
    have hends := hfirst.symm.trans hlast
    cases init with
    | nil =>
        -- the only literal, with the two tags one behind the other
        obtain ⟨hliteral, rfl⟩ := List.cons.inj hends
        have hliteral := Segment.literal.inj hliteral
        have hrest : back.length ≤ rest.length := by
          rw [← hjoin, hfirst] at hlength
          simp [Segment.text] at hlength
          omega
        obtain ⟨m, rfl⟩ : ∃ m, rest = m ++ back := by
          rcases List.append_eq_append_iff.mp hliteral with ⟨m, -, hm⟩ | ⟨c, -, hc⟩
          · exact ⟨m, hm⟩
          · have hnil : c = [] := List.length_eq_zero_iff.mp (by
              have := congrArg List.length hc
              rw [List.length_append] at this
              omega)
            exact ⟨[], by rw [hc, hnil]; rfl⟩
        refine ⟨Skeleton.converted params m, ?_⟩
        rw [hlaidFirst, hcutLast m hfirstSmooth.right]
        simp [Segment.text]
    | cons segment init =>
        obtain ⟨-, rfl⟩ := List.cons.inj hends
        refine ⟨Skeleton.converted params rest ++
          (Segment.join (init.map (laySegment contents params)) ++
            Skeleton.converted params rest'), ?_⟩
        rw [hlaidFirst, List.append_eq, List.map_append, List.map_singleton, laySegment,
          htoPage _ hlastMem, hcutLast _ hlastSmooth]
        simp [Segment.text]
  refine ⟨mid, ?_, ?_, ?_, ?_⟩
  · rw [assemble_eq, Assembly.ofSegments, hlaidFirst]
    exact ⟨_, _, _, rfl, rfl⟩
  · refine ⟨(init.map (laySegment contents params)).map Segment.text,
      Skeleton.converted params rest',
      Assembly.skeletonFrom 0 (init.map (laySegment contents params)), ?_, ?_, ?_⟩
    · rw [assemble_eq, Assembly.ofSegments, hlaidLast, List.map_append]
      rfl
    · rw [assemble_eq, Assembly.ofSegments, hlaidLast, skeletonFrom_append_literal]
      simp
    · rw [← hcutLast _ hlastSmooth, Skeleton.closingsOf_converted hvalues hlastSmooth,
        List.getLast?_map, hclosings, Option.map_some, Skeleton.place, List.take_left]
  · rw [assemble_eq, Assembly.text_ofSegments, hmid]
  · rw [Skeleton.startsOf_converted hvalues hfirstSmooth.left, hstarts, List.map_singleton,
      Skeleton.place, List.take_length]

end Laid

/-- What ends the binding of a page, with the blanks behind it. -/
def ending (page : Page) (gap : Text) : Text :=
  (page.bindingEnd?.map fun bindingEnd => bindingEnd.raw ++ gap).getD []

/-- The binding comments of a page go to the two ends of what is framed. -/
theorem text_merge_of_framed {template : Template} {page : Page} {front mid back gap gapEnd : Text}
    (h : (assemble template (Segment.contents page.segments) page.params).1.Framed htmlTag front mid
      back) (hanchor : bindingAnchor page = ⟨some htmlTag, 1, gap⟩)
    (hend : ∀ bindingEnd ∈ page.bindingEnd?,
      bindingEndAnchor page bindingEnd = ⟨some htmlTag, 1, gapEnd⟩) :
    lead template page = front ∧ (merge template page).text =
      front ++ ((gap ++ page.binding.raw) ++ (mid ++ (ending page gapEnd ++ back))) := by
  obtain ⟨y, others, more, hpieces, hskeleton, htext⟩ : ∃ y others more,
      (ended template page).pieces = (front ++ y) :: others ∧
        (ended template page).skeleton = 0 :: more ∧
          y ++ others.flatten = mid ++ (ending page gapEnd ++ back) := by
    rw [ended, ending]
    cases hbindingEnd : page.bindingEnd? with
    | none =>
        obtain ⟨y, others, more, hpieces, hskeleton⟩ := h.first
        refine ⟨y, others, more, hpieces, hskeleton, ?_⟩
        have htext := h.text_eq
        rw [Assembly.text, hpieces, List.flatten_cons, List.append_assoc] at htext
        exact List.append_cancel_left htext
    | some bindingEnd =>
        dsimp only
        rw [hend bindingEnd hbindingEnd]
        exact h.placeBindingEnd bindingEnd.raw gapEnd
  rw [text_merge_eq, lead, hanchor,
    Assembly.placeBinding_first hpieces hskeleton (h.starts_append y),
    Assembly.lead_first hpieces hskeleton (h.starts_append y), ← htext]
  exact ⟨rfl, by simp [Assembly.text]⟩

/-- A canonical page is bound right behind its `html` tag. -/
theorem exists_bindingAnchor {page : Page}
    (h : Tag.OpensAlone htmlTag (page.text.take page.binding.start)) :
    ∃ gap : Text, gap.isBlank = true ∧ bindingAnchor page = ⟨some htmlTag, 1, gap⟩ := by
  obtain ⟨stop, hmem, hstarts, hblank⟩ := h
  have hle := ((Tag.startsOf_bounds _ _).1 stop hmem).2
  have htake : Tag.startsOf htmlTag ((page.text.take page.binding.start).take stop) = [stop] :=
    Tag.startsOf_take (by rw [hstarts]; rfl)
  have hlength : ((page.text.take page.binding.start).take stop).length = stop := by
    rw [List.length_take, Nat.min_eq_left hle]
  exact ⟨_, hblank, bindingAnchor_eq (List.take_append_drop stop _).symm hblank
    (by rw [htake, hlength])⟩

/-- Its binding ends right before the closing `html` tag. -/
theorem exists_bindingEndAnchor {page : Page} {bindingEnd : Token}
    (h : Tag.ClosesAlone htmlTag (page.text.drop bindingEnd.stop)) :
    ∃ gap : Text, gap.isBlank = true ∧
      bindingEndAnchor page bindingEnd = ⟨some htmlTag, 1, gap⟩ := by
  obtain ⟨start, hmem, hclosings, hblank⟩ := h
  have hdrop : Tag.closingsOf htmlTag ((page.text.drop bindingEnd.stop).drop start) = [0] :=
    Tag.closingsOf_drop (by rw [hclosings]; rfl)
  exact ⟨_, hblank, bindingEndAnchor_eq (List.take_append_drop start _).symm hblank hdrop⟩

end Merge

end Stencil
