import Stencil.Proofs.Merge.Stable
import Stencil.Proofs.Skeleton.Descriptions
import Stencil.Proofs.Skeleton.Fates

/-!
# The values that a merged page gives

A merged page gives a parameter the value that the first of its markers with that name carries. These
markers are those of the template, converted: the two comments of the page are put in where they cut
no marker without angle brackets (`filter_bodies_merge`), and dropping the comments on the template
takes none and brings none (`filter_bodies_assemble`). So the page's own value comes back just when
the first marker of the name that is a marker still has taken it, or carried it anyway
(`merge_givesValue_iff`). A marker with a key like `data-value` in front of its value loses it.
-/

namespace Stencil

open Marker

namespace Marker

/-- A cut between two texts that leaves every comment without angle brackets whole. -/
def Spares (t u : Text) : Prop := ∀ x q q' v body : Text, t = x ++ q → u = q' ++ v → q ≠ [] →
  q' ≠ [] → IsBare body → wrap body ≠ q ++ q'

theorem spares_nil_left (u : Text) : Spares [] u := fun _ _ _ _ _ ht _ hq =>
  absurd (List.append_eq_nil_iff.mp ht.symm).2 hq

theorem spares_of_end (t u : Text) : Spares (t ++ [.char '>']) u :=
  fun _ _ _ _ _ ht _ hq hq' hbare => wrap_ne_of_end hbare ht hq hq'

theorem spares_of_closing (t u : Text) : Spares t (.char '<' :: .char '/' :: u) :=
  fun _ _ _ _ _ _ hu _ hq' hbare => wrap_ne_of_closing hbare hu hq'

/-- Where the comments of a sort are whole, those of two texts joined are those of the first and
those of the second. -/
theorem filter_bodies_append {p : Text → Bool} {t u : Text} (hspares : Spares t u)
    (hbare : ∀ body ∈ bodies (t ++ u), p body = true → IsBare body) :
    (bodies (t ++ u)).filter p = (bodies t).filter p ++ (bodies u).filter p := by
  induction t with
  | nil => rfl
  | cons g t ih =>
      have hspares' : Spares t u := fun x q q' v body ht => hspares (g :: x) q q' v body (by rw [ht]; rfl)
      have ih := ih hspares' fun body hb => hbare body (mem_bodies_append_right (t := [g]) hb)
      rw [List.cons_append, bodies_cons, bodies_cons, List.filter_append, List.filter_append, ih,
        List.append_assoc]
      refine congrArg (· ++ _) ?_
      cases hat : commentAt? (g :: t) with
      | some body => rw [← List.cons_append, commentAt?_append hat]
      | none =>
          cases hlong : commentAt? (g :: (t ++ u)) with
          | none => rfl
          | some body =>
              -- a comment that reaches over the cut is not of the sort
              suffices hnot : p body = false by simp [hnot]
              rw [Bool.eq_false_iff]
              intro hp
              obtain ⟨hbody, rest, heq⟩ := commentAt?_eq_some_iff.mp hlong
              have hmem : body ∈ bodies (g :: t ++ u) := by
                rw [List.cons_append, bodies_cons, hlong]
                exact List.mem_append_left _ (List.mem_singleton_self body)
              rw [← List.cons_append] at heq
              rcases Text.cut_cases (heq.trans (List.nil_append _).symm) with
                ⟨z, hz, -⟩ | ⟨q, q', hq, hq', hwrap, ht, hu⟩ | ⟨y, hy, -⟩
              · cases hz
              · exact hspares [] q q' rest body ht hu hq hq' (hbare body hmem hp) hwrap
              · rw [commentAt?_eq_some_iff.mpr ⟨hbody, y, hy⟩] at hat
                cases hat

end Marker

namespace Assembly

variable {p : Text → Bool} {a : Assembly} {body : Text} {anchor : Anchor}

/-- A binding that is put in takes no marker without angle brackets away. -/
theorem filter_placeBinding (hbody : IsBody body) (hp : p body = false)
    (hgap : anchor.gap.isBlank = true)
    (hbare : ∀ body ∈ bodies a.text, p body = true → IsBare body) :
    (bodies (a.placeBinding (wrap body) anchor).text).filter p = (bodies a.text).filter p := by
  obtain ⟨gap, hblank, htext⟩ := a.text_placeBinding (wrap body) hgap
  obtain ⟨hsplit, hspares⟩ : a.text = a.lead anchor ++ a.trail anchor ∧
      Spares (a.lead anchor) (a.trail anchor) := by
    rw [lead, trail]
    cases hspot : a.bindingSpot? anchor with
    | none => exact ⟨rfl, spares_nil_left _⟩
    | some spot =>
        obtain ⟨tag, hmem⟩ := exists_of_bindingSpot? hspot
        obtain ⟨-, pieces, left, right, others, hcuts⟩ := cuts_of_mem_startSpots hmem
        refine ⟨hcuts.text_eq, ?_⟩
        rw [Option.map_some, Option.getD_some, hcuts.before_eq, ← List.append_assoc]
        exact spares_of_end _ _
  rw [hsplit] at hbare
  rw [htext, isInlay_blanks_wrap hblank hbody, List.filter_append,
    List.filter_cons_of_neg (by simp [hp]), hsplit, filter_bodies_append hspares hbare]

theorem filter_placeBindingEnd (hbody : IsBody body) (hp : p body = false)
    (hgap : anchor.gap.isBlank = true)
    (hbare : ∀ body ∈ bodies a.text, p body = true → IsBare body) :
    (bodies (a.placeBindingEnd (wrap body) anchor).text).filter p = (bodies a.text).filter p := by
  obtain ⟨gap, hblank, hplace⟩ := a.placeBindingEnd_eq (wrap body) hgap
  rw [hplace]
  cases hspot : a.bindingEndSpot? anchor with
  | none =>
      have hend := isInlay_wrap_blanks hblank hbody a.text []
      rw [List.append_nil, bodies_nil] at hend
      dsimp only
      rw [text_append, hend, List.filter_append, List.filter_cons_of_neg (by simp [hp]),
        List.filter_nil, List.append_nil]
  | some spot =>
      obtain ⟨tag, hmem⟩ := exists_of_bindingEndSpot? hspot
      obtain ⟨-, pieces, left, right, others, hcuts⟩ := cuts_of_mem_closingSpots hmem
      have hspares : Spares (a.before spot) (a.behind spot) := by
        rw [hcuts.behind_eq]
        exact spares_of_closing _ _
      rw [hcuts.text_eq] at hbare
      dsimp only
      rw [hcuts.text_insertAt, isInlay_wrap_blanks hblank hbody, List.filter_append,
        List.filter_cons_of_neg (by simp [hp]), hcuts.text_eq, filter_bodies_append hspares hbare]

end Assembly

namespace Merge

variable {text source text' source' : Text} {template : Template} {page : Page}
  {contents : List (Text × Text)} {params : List Param} {p : Text → Bool}

/-- The markers of a sort that are laid out are those of the merged page. -/
theorem filter_bodies_merge (hpage : Page.build text' source' = .ok page)
    (hp : ∀ body, Says [.binding, .bindingEnd] body → p body = false)
    (hbare : ∀ body ∈ bodies (assemble template (Segment.contents page.segments) page.params).1.text,
      p body = true → IsBare body) :
    (bodies (merge template page).text).filter p =
      (bodies (assemble template (Segment.contents page.segments) page.params).1.text).filter p := by
  obtain ⟨body, hbody, hkind, -, hraw⟩ :=
    Page.exists_body_of_bindingOf (Page.bindingOf_of_build hpage)
  have hended : (bodies (ended template page).text).filter p = (bodies
      (assemble template (Segment.contents page.segments) page.params).1.text).filter p := by
    rw [ended]
    cases hend : page.bindingEnd? with
    | none => rfl
    | some bindingEnd =>
        obtain ⟨bodyEnd, hbodyEnd, hkindEnd, hrawEnd⟩ := Page.exists_body_of_bindingEnd hpage hend
        dsimp only
        rw [hrawEnd]
        exact Assembly.filter_placeBindingEnd hbodyEnd (hp _ ⟨_, by decide, hkindEnd⟩)
          (isBlank_bindingEndAnchor page bindingEnd) hbare
  rw [text_merge_eq, hraw, Assembly.filter_placeBinding hbody (hp _ ⟨_, by decide, hkind⟩)
    (isBlank_bindingAnchor page) fun body hb hsaid => ?_, hended]
  have hmem : body ∈ (bodies (ended template page).text).filter p := List.mem_filter.mpr ⟨hb, hsaid⟩
  rw [hended] at hmem
  exact hbare body (List.mem_filter.mp hmem).1 hsaid

/-! ## What is laid out -/

/-- The kinds of the markers of parameters. -/
def paramKinds : List Kind := [.param .template, .param .page]

theorem filter_converted_eq_nil (hp : ∀ body, p body = true → kind? body = some (.param .page))
    {t : Text} (h : Silent (Says paramKinds) t) :
    ((bodies t).map (Skeleton.convertBody params)).filter p = [] := by
  rw [List.filter_eq_nil_iff]
  intro body hbody hsaid
  obtain ⟨b, hb, rfl⟩ := List.mem_map.mp hbody
  rcases Skeleton.kind?_of_convertBody_param (hp _ hsaid) with hkind | hkind
  · exact h b hb ⟨_, by decide, hkind⟩
  · exact h b hb ⟨_, by decide, hkind⟩

theorem filter_eq_nil (hp : ∀ body, p body = true → kind? body = some (.param .page))
    {t : Text} (h : Silent (Says paramKinds) t) : (bodies t).filter p = [] := by
  rw [List.filter_eq_nil_iff]
  exact fun body hbody hsaid => h body hbody ⟨_, by decide, hp body hsaid⟩

section Laid

variable (hvalues : Skeleton.AreQuiet params)

include hvalues

/-- What is laid from an end marker on begins with that marker. -/
theorem exists_join_laid (contents : List (Text × Text)) {closing : Text} (hclosing : IsBody closing)
    (hinfo : Skeleton.infoRest? closing = none) (plain : Text) (blocks : List Block)
    (hdroppable : ∀ t, .literal t ∈ Outline.segmentsFrom (wrap closing) plain blocks →
      Skeleton.IsDroppable t) :
    ∃ rest, Segment.join ((Outline.segmentsFrom (wrap closing) plain blocks).map
      (laySegment contents params)) = wrap (Skeleton.convertBody params closing) ++ rest := by
  have hwrap : ∀ {t}, Skeleton.IsDroppable (wrap closing ++ t) → Skeleton.toPage params
      (wrap closing ++ t) = wrap (Skeleton.convertBody params closing) ++
        Skeleton.toPage params t := fun {t} ht =>
    (Skeleton.toPage_insert hvalues (u := []) ht hclosing hinfo).2.2
  cases blocks with
  | nil =>
      have hne : ¬ (wrap closing ++ plain).isEmpty = true := by simp [wrap, opener]
      rw [Outline.segmentsFrom, Segment.literals, if_neg hne] at hdroppable ⊢
      refine ⟨Skeleton.toPage params plain, ?_⟩
      rw [List.map_singleton, laySegment, hwrap (hdroppable _ List.mem_cons_self)]
      simp [Segment.text]
  | cons b blocks =>
      rw [Outline.segmentsFrom] at hdroppable ⊢
      rw [List.map_cons, laySegment, hwrap (hdroppable _ List.mem_cons_self), Segment.join_cons,
        Segment.text, List.append_assoc]
      exact ⟨_, rfl⟩

/-- The markers that are laid for a block and what stands around it. -/
theorem exists_bodies_join_laid (contents : List (Text × Text)) {b : Block} (hb : b.Fits .template) {blocks : List Block}
    {lead plain : Text}
    (hdroppable : ∀ t, .literal t ∈ Outline.segmentsFrom lead plain (b :: blocks) →
      Skeleton.IsDroppable t) :
    ∃ rest, Skeleton.IsDroppable (lead ++ plain) ∧
      (∀ t, .literal t ∈ Outline.segmentsFrom (wrap b.closing) b.behind blocks →
        Skeleton.IsDroppable t) ∧
      bodies (Segment.join ((Outline.segmentsFrom (wrap b.closing) b.behind blocks).map
        (laySegment contents params))) = Skeleton.convertBody params b.closing :: bodies rest ∧
      bodies (Segment.join ((Outline.segmentsFrom lead plain (b :: blocks)).map
          (laySegment contents params))) =
        bodies (Skeleton.toPage params (lead ++ plain)) ++ Skeleton.convertBody params b.opening ::
          (bodies (layRegion contents b.name b.content).1 ++
            Skeleton.convertBody params b.closing :: bodies rest) := by
  rw [Outline.segmentsFrom] at hdroppable ⊢
  have hlater : ∀ t, .literal t ∈ Outline.segmentsFrom (wrap b.closing) b.behind blocks →
      Skeleton.IsDroppable t := fun t ht =>
    hdroppable t (List.mem_cons_of_mem _ (List.mem_cons_of_mem _ ht))
  have hin : lead ++ (plain ++ wrap b.opening) = (lead ++ plain) ++ (wrap b.opening ++ []) := by
    simp
  have hliteral := hdroppable _ List.mem_cons_self
  rw [hin] at hliteral
  obtain ⟨hplain, -, htoPage⟩ := Skeleton.toPage_insert hvalues hliteral hb.opening_isBody
    (Skeleton.infoRest?_of_kind? hb.opening_kind)
  obtain ⟨rest, hrest⟩ := exists_join_laid hvalues contents hb.closing_isBody
    (Skeleton.infoRest?_of_kind? hb.closing_kind) b.behind blocks hlater
  have hopening := Skeleton.isBody_convertBody hvalues hb.opening_isBody
  have hclosing := Skeleton.isBody_convertBody hvalues hb.closing_isBody
  have hnothing : Skeleton.toPage params [] = [] := rfl
  refine ⟨rest, hplain, hlater, by rw [hrest, bodies_wrap_append hclosing], ?_⟩
  rw [List.map_cons, List.map_cons, Segment.join_cons, Segment.join_cons, hrest, laySegment,
    laySegment, Segment.text, Segment.text, hin, htoPage, List.append_assoc, List.append_assoc,
    bodies_insert _ hopening, hnothing, List.nil_append, bodies_insert _ hclosing]

/-- Laying blocks out converts the markers of a sort, but for those in regions. -/
theorem filter_bodies_segmentsFrom (hp : ∀ body, p body = true → kind? body = some (.param .page))
    (hcontents : ∀ entry ∈ contents, Silent (Says paramKinds) entry.2) {blocks : List Block}
    (hfit : ∀ b ∈ blocks, b.Fits .template)
    (hdefaults : ∀ b ∈ blocks, Silent (Says paramKinds) b.content) :
    ∀ {lead plain : Text},
      (∀ t, .literal t ∈ Outline.segmentsFrom lead plain blocks → Skeleton.IsDroppable t) →
      (bodies (Segment.join ((Outline.segmentsFrom lead plain blocks).map
          (laySegment contents params)))).filter p =
        ((bodies (lead ++ (plain ++ Outline.textFrom blocks))).map
          (Skeleton.convertBody params)).filter p := by
  have hmarker : ∀ body, p body = true → ∃ kind, kind? body = some kind :=
    fun body hsaid => ⟨_, hp body hsaid⟩
  induction blocks with
  | nil =>
      intro lead plain hdroppable
      rw [Outline.segmentsFrom, Segment.literals] at hdroppable ⊢
      rw [Outline.textFrom_nil, List.append_nil]
      split
      · next hempty =>
        rw [List.isEmpty_iff.mp hempty]
        rfl
      · next hne =>
        rw [if_neg hne] at hdroppable
        rw [List.map_singleton, laySegment, Segment.join_cons, Segment.join_nil, List.append_nil,
          Segment.text]
        exact Skeleton.filter_bodies_toPage hvalues (hdroppable _ List.mem_cons_self) hmarker
  | cons b blocks ih =>
      intro lead plain hdroppable
      have hb := hfit b List.mem_cons_self
      have hdefault := hdefaults b List.mem_cons_self
      have hcontent : Silent (Says paramKinds) (layRegion contents b.name b.content).1 :=
        free_layRegion hcontents hdefault
      obtain ⟨rest, hplain, hlater, hrest, hlaid⟩ :=
        exists_bodies_join_laid hvalues contents hb hdroppable
      have hnext := ih (fun b' hb' => hfit b' (List.mem_cons_of_mem _ hb'))
        (fun b' hb' => hdefaults b' (List.mem_cons_of_mem _ hb')) hlater
      rw [hrest, bodies_wrap_append hb.closing_isBody, List.map_cons] at hnext
      have hopening : ¬ p (Skeleton.convertBody params b.opening) = true := fun hsaid => by
        have hkind := (Skeleton.convertBody_region hb.opening_kind (Or.inl rfl) params).1
        rw [hp _ hsaid] at hkind
        cases hkind
      rw [hlaid, ← List.append_assoc lead, Outline.append_textFrom_cons,
        bodies_insert _ hb.opening_isBody, bodies_insert _ hb.closing_isBody, List.filter_append,
        List.filter_cons_of_neg hopening, List.filter_append, filter_eq_nil hp hcontent, hnext,
        Skeleton.filter_bodies_toPage hvalues hplain hmarker, List.map_append, List.map_cons,
        List.map_append, List.map_cons, List.filter_append, List.filter_cons_of_neg hopening,
        List.filter_append, filter_converted_eq_nil hp hdefault]

/-- The parameter markers that are laid out are those of the template, converted. -/
theorem filter_bodies_assemble (htemplate : Template.build text source = .ok template)
    (hp : ∀ body, p body = true → kind? body = some (.param .page))
    (hcontents : ∀ entry ∈ contents, Silent (Says paramKinds) entry.2)
    (hdefaults : ∀ entry ∈ Segment.contents template.segments, Silent (Says paramKinds) entry.2)
    (hdroppable : ∀ t, .literal t ∈ template.segments → Skeleton.IsDroppable t) :
    (bodies (assemble template contents params).1.text).filter p =
      ((bodies text).map (Skeleton.convertBody params)).filter p := by
  obtain ⟨o, hfit, rfl, hsegments⟩ := exists_outline_of_template htemplate
  have hlaid : Segment.join (template.segments.map (laySegment contents params)) =
      Segment.join (o.segments.map (laySegment contents params)) := by
    rw [← Segment.join_map_unplaced, ← hsegments, List.map_map, List.map_map]
    exact congrArg _ (List.map_congr_left fun segment _ => unplaced_laySegment contents params segment)
  rw [assemble_eq, Assembly.text_ofSegments, hlaid]
  refine filter_bodies_segmentsFrom hvalues hp hcontents hfit.blocks_fit (fun b hb => ?_) ?_
  · have hentry : (b.name, b.content) ∈ Segment.contents template.segments := by
      rw [← Segment.contents_map_unplaced, hsegments, Outline.contents_segments]
      exact List.mem_map_of_mem hb
    exact hdefaults _ hentry
  · intro t ht
    rw [show Outline.segmentsFrom [] o.head o.blocks = o.segments from rfl, ← hsegments] at ht
    obtain ⟨segment, hsegment, heq⟩ := List.mem_map.mp ht
    cases segment with
    | literal t' =>
        obtain rfl := Segment.literal.inj heq
        exact hdroppable _ hsegment
    | region name content span => cases heq

end Laid

/-! ## The value that comes back -/

/-- Nothing about the markers of a name is disturbed but what is written into them: what describes
the template can be dropped, the markers that name the parameter and the value the page gives it
hold no angle brackets, and no value of the page ends in an equals sign. -/
structure Undisturbed (text : Text) (template : Template) (page : Page) (name : Text) : Prop where
  droppable : ∀ segment ∈ template.segments, segment.isRegion = false →
    Skeleton.IsDroppable segment.text
  bare : ∀ body ∈ bodies text,
    (Param.isGivenBy .template name body || Param.isGivenBy .page name body) = true → IsBare body
  value_bare : ∀ param ∈ page.params, param.name = name → IsBare param.value
  values_sign : ∀ param ∈ page.params, Skeleton.endsInSign param.value = false

instance (text : Text) (template : Template) (page : Page) (name : Text) :
    Decidable (Undisturbed text template page name) :=
  decidable_of_iff ((∀ segment ∈ template.segments, segment.isRegion = false →
      Skeleton.IsDroppable segment.text) ∧ (∀ body ∈ bodies text,
      (Param.isGivenBy .template name body || Param.isGivenBy .page name body) = true →
        IsBare body) ∧ (∀ param ∈ page.params, param.name = name → IsBare param.value) ∧
      ∀ param ∈ page.params, Skeleton.endsInSign param.value = false)
    ⟨fun ⟨h₁, h₂, h₃, h₄⟩ => ⟨h₁, h₂, h₃, h₄⟩, fun ⟨h₁, h₂, h₃, h₄⟩ => ⟨h₁, h₂, h₃, h₄⟩⟩

/-- Whether a comment of a template is a marker for this name in a page that gives the name a
value: a marker of pages, or one of templates that the value leaves a marker. -/
def lasts (name body : Text) : Bool :=
  Param.isGivenBy .page name body ||
    Param.isGivenBy .template name body && Skeleton.fateOf body ≠ .lost

/-- Whether a comment of a template takes the value that the page gives. -/
def takes (body : Text) : Bool :=
  kind? body = some (.param .template) && Skeleton.fateOf body = .taken

theorem isGivenBy_iff {side : Side} {name body : Text} :
    Param.isGivenBy side name body = true ↔ kind? body = some (.param side) ∧ nameOf body = name := by
  simp [Param.isGivenBy]

theorem settled_eq_some_iff {body name value : Text} :
    Skeleton.settled body = some (name, value) ↔
      Param.isGivenBy .page name body = true ∧ valueOf body = value := by
  rw [Skeleton.settled, isGivenBy_iff]
  split
  · next hkind => simp [hkind]
  · next hkind => simp [hkind]

section Given

variable {name : Text} {given : Param} (hunquoted : Skeleton.AreUnquoted params)
  (hsigns : ∀ param ∈ params, Skeleton.endsInSign param.value = false)
  (hgiven : Skeleton.param? params name = some given)

include hunquoted hsigns hgiven

/-- What a comment of the template gives in the page, of a name that the page gives a value. -/
theorem settled_convertBody_iff {value : Text} (body : Text) :
    Skeleton.settled (Skeleton.convertBody params body) = some (name, value) ↔
      lasts name body = true ∧ value = if takes body then given.value else valueOf body := by
  by_cases htemplate : kind? body = some (.param .template)
  · have hlasts : lasts name body = true ↔ nameOf body = name ∧ Skeleton.fateOf body ≠ .lost := by
      simp [lasts, Param.isGivenBy, htemplate]
    have htakes : takes body = true ↔ Skeleton.fateOf body = .taken := by simp [takes, htemplate]
    rw [hlasts]
    cases hparam : Skeleton.param? params (nameOf body) with
    | none =>
        have hname : nameOf body ≠ name := by
          rintro rfl
          rw [hgiven] at hparam
          cases hparam
        rw [Skeleton.settled_convertBody_of_none htemplate hparam]
        simp [hname]
    | some param =>
        have hmem := (Skeleton.mem_of_param? hparam).1
        rw [Skeleton.settled_convertBody htemplate hparam (hunquoted param hmem) (hsigns param hmem)]
        have hvalue : nameOf body = name → param = given := by
          rintro rfl
          exact Option.some.inj (hparam.symm.trans hgiven)
        cases hfate : Skeleton.fateOf body with
        | taken =>
            rw [if_pos (htakes.mpr hfate)]
            simp only [Option.some.injEq, Prod.mk.injEq, ne_eq, reduceCtorEq, not_false_eq_true,
              and_true]
            constructor
            · rintro ⟨hname, rfl⟩
              exact ⟨hname, by rw [hvalue hname]⟩
            · rintro ⟨hname, rfl⟩
              exact ⟨hname, by rw [hvalue hname]⟩
        | kept =>
            rw [if_neg fun h => by rw [htakes, hfate] at h; cases h]
            simp [eq_comm]
        | lost => simp
  · have hsame : Skeleton.settled (Skeleton.convertBody params body) = Skeleton.settled body := by
      rcases Skeleton.convertBody_cases params body with heq | ⟨kind, hmem, hkind, rest, hfirst⟩
      · rw [heq]
      · -- a region marker gives no parameter on either side
        have hnone : ∀ {other : Text}, kind? other ≠ some (.param .page) →
            Skeleton.settled other = none := fun h => if_neg h
        rw [hnone, hnone]
        · rw [hkind]
          intro hpage
          rw [Option.some.inj hpage] at hmem
          exact absurd hmem (by decide)
        · intro hpage
          rcases Skeleton.kind?_of_convertBody_param hpage with hbody | hbody
          · exact htemplate hbody
          · rw [hkind, Option.some.injEq] at hbody
            rw [hbody] at hmem
            exact absurd hmem (by decide)
    have hlasts : lasts name body = Param.isGivenBy .page name body := by
      simp [lasts, Param.isGivenBy, htemplate]
    have htakes : ¬ takes body = true := by simp [takes, htemplate]
    rw [hsame, settled_eq_some_iff, hlasts, if_neg htakes, eq_comm (a := value)]

theorem isGivenBy_convertBody :
    Param.isGivenBy .page name ∘ Skeleton.convertBody params = lasts name := by
  funext body
  rw [Function.comp_apply, Bool.eq_iff_iff]
  have hiff : ∀ value, Skeleton.settled (Skeleton.convertBody params body) = some (name, value) ↔
      lasts name body = true ∧ value = if takes body then given.value else valueOf body :=
    fun value => settled_convertBody_iff hunquoted hsigns hgiven body
  constructor
  · intro hsaid
    exact ((hiff _).mp (settled_eq_some_iff.mpr ⟨hsaid, rfl⟩)).1
  · intro hlasts
    exact (settled_eq_some_iff.mp ((hiff _).mpr ⟨hlasts, rfl⟩)).1

theorem valueOf_convertBody {body : Text} (h : lasts name body = true) :
    valueOf (Skeleton.convertBody params body) =
      if takes body then given.value else valueOf body :=
  (settled_eq_some_iff.mp
    ((settled_convertBody_iff hunquoted hsigns hgiven body).mpr ⟨h, rfl⟩)).2

end Given

/-- A comment that lasts as a marker for a name is a marker that names it. -/
theorem names_of_lasts {name body : Text} (h : lasts name body = true) :
    (Param.isGivenBy .template name body || Param.isGivenBy .page name body) = true ∧
      nameOf body = name := by
  rw [lasts, Bool.or_eq_true, Bool.and_eq_true] at h
  rcases h with hsaid | ⟨hsaid, -⟩
  · exact ⟨by rw [hsaid, Bool.or_true], (isGivenBy_iff.mp hsaid).2⟩
  · exact ⟨by rw [hsaid, Bool.true_or], (isGivenBy_iff.mp hsaid).2⟩

/-- Of the markers for a name, those of the merged page are those of the template that last. -/
theorem filter_isGivenBy_merge (htemplate : Template.build text source = .ok template)
    (hpage : Page.build text' source' = .ok page)
    (hcontents : ∀ entry ∈ Segment.contents template.segments ++ Segment.contents page.segments,
      Lacks paramKinds entry.2) {name : Text} (h : Undisturbed text template page name)
    {given : Param} (hgiven : Skeleton.param? page.params name = some given) :
    (bodies (merge template page).text).filter (Param.isGivenBy .page name) =
      ((bodies text).filter (lasts name)).map (Skeleton.convertBody page.params) := by
  have hheld : ∀ entry ∈ Segment.contents page.segments, Silent (Says paramKinds) entry.2 :=
    fun entry hentry => lacks_iff.mp (hcontents entry (List.mem_append_right _ hentry))
  have hlaid := filter_bodies_assemble (p := Param.isGivenBy .page name)
    (areQuiet_of_build hpage) htemplate (fun body hsaid => (isGivenBy_iff.mp hsaid).1) hheld
    (fun entry hentry => lacks_iff.mp (hcontents entry (List.mem_append_left _ hentry)))
    fun t ht => h.droppable (.literal t) ht rfl
  rw [List.filter_map, isGivenBy_convertBody (areUnquoted_of_build hpage) h.values_sign hgiven]
    at hlaid
  rw [filter_bodies_merge hpage ?_ ?_, hlaid]
  · rintro body ⟨kind, hmem, hsaid⟩
    rw [Param.isGivenBy, hsaid]
    revert hmem
    rcases kind with side | side | side | _ | _ <;> simp
  · intro body hbody hsaid
    have hmem := List.mem_filter.mpr ⟨hbody, hsaid⟩
    rw [hlaid] at hmem
    obtain ⟨b, hb, rfl⟩ := List.mem_map.mp hmem
    obtain ⟨hb, hlasts⟩ := List.mem_filter.mp hb
    obtain ⟨hnames, hname⟩ := names_of_lasts hlasts
    refine Skeleton.isBare_convertBody_of_value (fun param hparam => ?_) (h.bare b hb hnames)
    obtain ⟨hparamMem, hparamName⟩ := Skeleton.mem_of_param? hparam
    exact h.value_bare param hparamMem (hparamName.trans hname)

/-- What a text gives a name is what its first marker for it says. -/
theorem exists_collect_iff {t name value : Text} :
    (∃ param ∈ Param.collect .page (scan t), param.name = name ∧ param.value = value) ↔
      ((bodies t).find? (Param.isGivenBy .page name)).map valueOf = some value := by
  rw [← Param.value_first?, Option.map_eq_some_iff]
  constructor
  · rintro ⟨param, hmem, hname, hvalue⟩
    exact ⟨param, Param.mem_collect_iff.mp ⟨hmem, hname⟩, hvalue⟩
  · rintro ⟨param, hsome, hvalue⟩
    obtain ⟨hmem, hname⟩ := Param.mem_collect_iff.mpr hsome
    exact ⟨param, hmem, hname, hvalue⟩

end Merge

/-- Read again, a merged page gives a name the value that the page gave it just when the first
marker of the template that is still a marker for this name takes values, or has this one. -/
theorem merge_givesValue_iff {text source text' source' target : Text} {template : Template}
    {page again : Page} (htemplate : Template.build text source = .ok template)
    (hpage : Page.build text' source' = .ok page)
    (hcontents : ∀ entry ∈ Segment.contents template.segments ++ Segment.contents page.segments,
      Lacks Merge.paramKinds entry.2)
    {name : Text} {given : Param} (hgiven : Param.first? .page name text' = some given)
    (h : Merge.Undisturbed text template page name)
    (hagain : Page.build (merge template page).text target = .ok again) :
    (∃ param ∈ again.params, param.name = name ∧ param.value = given.value) ↔
      ∃ body, (bodies text).find? (Merge.lasts name) = some body ∧
        (Merge.takes body = true ∨ valueOf body = given.value) := by
  have hparam : Skeleton.param? page.params name = some given := by
    rw [(Page.bindingEndOf_of_build hpage).2.2, Param.param?_collect_eq, hgiven]
  have hfind : (bodies (merge template page).text).find? (Param.isGivenBy .page name) =
      ((bodies text).find? (Merge.lasts name)).map (Skeleton.convertBody page.params) := by
    rw [← List.head?_filter, ← List.head?_filter,
      Merge.filter_isGivenBy_merge htemplate hpage hcontents h hparam, List.head?_map]
  rw [(Page.bindingEndOf_of_build hagain).2.2, Merge.exists_collect_iff, hfind, Option.map_map,
    Option.map_eq_some_iff]
  refine exists_congr fun body => and_congr_right fun hbody => ?_
  rw [Function.comp_apply, Merge.valueOf_convertBody (Merge.areUnquoted_of_build hpage) h.values_sign
    hparam (List.find?_some hbody)]
  by_cases htakes : Merge.takes body = true
  · simp [htakes]
  · simp [htakes]

/-- A template whose parameter has another attribute that ends in the word, before its value. -/
def themed : Text :=
  Text.concat ["<html><head>", wrap "TemplateParam name=\"theme\" data-value=\"x\" value=\"light\"",
    "</head><body></body></html>"]

/-- A page that sets this parameter. -/
def darkThemed : Text :=
  Text.concat ["<html>", wrap "InstanceBegin template=\"/t.dwt\"", "<head>",
    wrap "InstanceParam name=\"theme\" value=\"dark\"", "</head><body></body></html>"]

/-- The value of a page may be lost: it is written over another attribute. -/
theorem not_givesValue_themed : ∃ template page again given,
    Template.build themed [] = .ok template ∧ Page.build darkThemed [] = .ok page ∧
      Param.first? .page "theme" darkThemed = some given ∧ given.value = Text.ofString "dark" ∧
      Page.build (merge template page).text [] = .ok again ∧
      ¬ ∃ param ∈ again.params, param.name = Text.ofString "theme" ∧ param.value = given.value := by
  have hrun : passes themed darkThemed (fun template page =>
      decide ((∀ entry ∈ Segment.contents template.segments ++ Segment.contents page.segments,
        Lacks Merge.paramKinds entry.2) ∧ Merge.Undisturbed themed template page "theme" ∧
          (Page.build (merge template page).text []).toOption.isSome = true)) = true := by
    rw [themed, darkThemed]
    repeat rw [Text.ofString_ofList]
    decide +kernel
  obtain ⟨template, page, htemplate, hpage, htest⟩ := exists_of_passes hrun
  obtain ⟨hcontents, hundisturbed, hbuilt⟩ := of_decide_eq_true htest
  obtain ⟨again, hagain⟩ : ∃ again, Page.build (merge template page).text [] = .ok again := by
    cases hbuild : Page.build (merge template page).text [] with
    | error fault => rw [hbuild] at hbuilt; cases hbuilt
    | ok again => exact ⟨again, rfl⟩
  have hgiven : Param.first? .page "theme" darkThemed =
      some ⟨.ofString "theme", .ofString "text", .ofString "dark"⟩ := by decide +kernel
  refine ⟨template, page, again, _, htemplate, hpage, hgiven, rfl, hagain, fun hgives => ?_⟩
  obtain ⟨body, hbody, htakes⟩ := (merge_givesValue_iff htemplate hpage hcontents hgiven hundisturbed
    hagain).mp hgives
  have hfirst : (bodies themed).find? (Merge.lasts "theme") = some (.ofString
      "TemplateParam name=\"theme\" data-value=\"x\" value=\"light\"") := by decide +kernel
  rw [hfirst] at hbody
  obtain rfl := Option.some.inj hbody
  exact absurd htakes (by decide +kernel)

end Stencil
