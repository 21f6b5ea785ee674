import Stencil.Proofs.Merge.Ownership
import Stencil.Proofs.Merge.Stable
import Stencil.Proofs.Merge.Tallies

/-!
# Pages that merging leaves alone

A page that has the skeleton of its template, with its binding behind any start tag before the
regions and the end of the binding before any closing tag further behind, is what one would expect
of merging it once more. Such a page is accepted (`exists_page_of_places`), and its binding goes back
behind the same tag, as the tags up to it are those of the template (`text_placeBinding_of_places`).
The end of the binding is counted from the back, in the page together with the contents of its
regions and in the template without them. So it goes back before the same tag just when that is the
first of its name, or no content behind it holds a closing tag of this name (`text_merge_eq_iff`);
anywhere else it makes another text (`text_placeBinding_ne`). In `heldBetween` it does.
-/

namespace Stencil

open Marker

namespace Merge

/-- Where two comments go in segments: the first behind `front`, the second into a literal, behind
`left`, with `mid` between them. -/
structure Places where
  front : Text
  mid : Text
  init : List Segment
  left : Text
  right : Text
  later : List Segment

namespace Places

/-- The text of the segments with the two comments put in. -/
def text (p : Places) (body bodyEnd : Text) : Text :=
  p.front ++ (wrap body ++ (p.mid ++ (wrap bodyEnd ++ (p.right ++ Segment.join p.later))))

/-- The first place is right behind a start tag of a name, and no region marker comes before it; the
second is further behind, right before a closing tag of a name in a literal. -/
structure Fits (p : Places) (segments : List Segment) (start close : Text) : Prop where
  segments_eq : segments = p.init ++ .literal (p.left ++ p.right) :: p.later
  order : Segment.join p.init ++ p.left = p.front ++ p.mid
  opens : ∃ rest others, segments = .literal (p.front ++ rest) :: others ∧
    p.front.length ∈ Tag.startsOf start (p.front ++ rest)
  outside : Lacks (regionKinds .page) p.front
  closes : p.left.length ∈ Tag.closingsOf close (p.left ++ p.right)

/-- The closing tag is the first of its name in the literals. -/
def EndsFirst (p : Places) (close : Text) : Prop :=
  (∀ t, .literal t ∈ p.init → Tag.closingsOf close t = []) ∧
    ∀ n ∈ Tag.closingsOf close (p.left ++ p.right), p.left.length ≤ n

/-- No content behind the second place holds a closing tag of the name, nor one that is left open
for the end marker to close. -/
def HidesNone (p : Places) (close : Text) : Prop :=
  ∀ entry ∈ Segment.contents p.later, Tag.closingsOf close (entry.2 ++ [.char '>']) = []

/-- The places in segments of which it does not matter where they were found. -/
def unplaced (p : Places) : Places :=
  { p with init := p.init.map Segment.unplaced, later := p.later.map Segment.unplaced }

section

variable {p : Places} {segments : List Segment} {start close : Text}

theorem text_unplaced (body bodyEnd : Text) : p.unplaced.text body bodyEnd = p.text body bodyEnd := by
  rw [text, text, unplaced, Segment.join_map_unplaced]

theorem Fits.unplaced (h : p.Fits segments start close) :
    p.unplaced.Fits (segments.map Segment.unplaced) start close where
  segments_eq := by
    rw [h.segments_eq, List.map_append, List.map_cons]
    rfl
  order := by
    rw [Places.unplaced, Segment.join_map_unplaced]
    exact h.order
  opens := by
    obtain ⟨rest, others, hfirst, hstart⟩ := h.opens
    exact ⟨rest, others.map Segment.unplaced, by rw [hfirst, List.map_cons]; rfl, hstart⟩
  outside := h.outside
  closes := h.closes

theorem Fits.join_eq (h : p.Fits segments start close) : Segment.join segments =
    p.front ++ (p.mid ++ (p.right ++ Segment.join p.later)) := by
  have hfront := congrArg (· ++ (p.right ++ Segment.join p.later)) h.order
  simp only [List.append_assoc] at hfront
  rw [h.segments_eq, Segment.join_append, Segment.join_cons, Segment.text, List.append_assoc,
    hfront]

theorem Fits.exists_end (h : p.Fits segments start close) :
    ∃ x, p.front = x ++ [Glyph.char '>'] := by
  obtain ⟨rest, others, -, hstart⟩ := h.opens
  obtain ⟨earlier, hearlier, -⟩ := Tag.startsOf_cut hstart
  exact Tag.exists_end_of_mem (by rw [hearlier]; simp)

theorem Fits.exists_closing (h : p.Fits segments start close) :
    ∃ v, p.right = .char '<' :: .char '/' :: v := by
  obtain ⟨u, v, heq, hlength⟩ := Tag.closingsOf_split h.closes
  exact ⟨v, (List.append_inj heq hlength).2⟩

end

end Places

/-! ## The page is accepted -/

section Accepted

variable {o : Outline} {p : Places} {start close body bodyEnd : Text}

/-- What comes before the regions in the first literal stands in the head. -/
theorem exists_head_of_first (hfit : o.Fits .page) (hbare : Outline.Bare o.blocks)
    {front rest : Text} {others : List Segment}
    (hfirst : o.segments = .literal (front ++ rest) :: others)
    (hend : ∃ x, front = x ++ [Glyph.char '>']) (houtside : Lacks (regionKinds .page) front) :
    ∃ right, o.head = front ++ right ∧ rest ++ Segment.join others =
      right ++ Outline.textFrom o.blocks := by
  obtain ⟨x, rfl⟩ := hend
  have hsilent : Silent (Says (regionKinds .page)) (Segment.join [] ++ (x ++ [.char '>'])) :=
    lacks_iff.mp houtside
  obtain ⟨-, right, hhead, hbehind⟩ := Outline.split_head_of_start hbare
    (fun b hb => ⟨(hfit.blocks_fit b hb).opening_isBody,
      .regionBegin .page, List.mem_cons_self, (hfit.blocks_fit b hb).opening_kind⟩)
    (hfirst : o.segments = [] ++ .literal ((x ++ [.char '>']) ++ rest) :: others) hsilent
  exact ⟨right, hhead, hbehind⟩

/-- Segments with the two comments put in are those of an outline with the same regions. -/
theorem exists_outline_of_places (hfit : o.Fits .page) (hbare : Outline.Bare o.blocks)
    (h : p.Fits o.segments start close) (hbody : IsBody body) (hkind : kind? body = some .binding)
    (hbodyEnd : IsBody bodyEnd) (hkindEnd : kind? bodyEnd = some .bindingEnd) :
    ∃ o' : Outline, o'.Fits .page ∧ o'.text = p.text body bodyEnd ∧
      (o'.blocks.map fun b => (b.name, b.content)) = o.blocks.map fun b => (b.name, b.content) := by
  have hnot : ¬ Says (regionKinds .page) body := by
    rw [says_iff_mem hkind]
    decide
  have hnotEnd : ¬ Says (regionKinds .page) bodyEnd := by
    rw [says_iff_mem hkindEnd]
    decide
  -- the end of the binding stands in a plain stretch
  obtain ⟨v, hright⟩ := h.exists_closing
  have hsegments := h.segments_eq
  rw [hright] at hsegments
  obtain ⟨o₁, hgains, hsegments₁⟩ :=
    Outline.exists_gains_of_closing hbare (wrap bodyEnd) Text.sealed_nil hsegments
  rw [← hright] at hsegments₁
  have hfit₁ := hgains.fits (isInlay_wrap hbodyEnd) hnotEnd hfit
  have hbare₁ := hgains.bare hbare
  -- and the binding in the head
  obtain ⟨rest, others, hfirst⟩ : ∃ rest others,
      o₁.segments = .literal (p.front ++ rest) :: others := by
    rw [Outline.segments, hsegments₁]
    obtain ⟨rest, others, hfirst, -⟩ := h.opens
    have horder := h.order
    rw [h.segments_eq] at hfirst
    cases hinit : p.init with
    | nil =>
        rw [hinit, Segment.join_nil, List.nil_append] at horder
        exact ⟨p.mid ++ (wrap bodyEnd ++ p.right), p.later, by rw [horder]; simp⟩
    | cons s init =>
        rw [hinit, List.cons_append] at hfirst
        exact ⟨rest, _, by rw [List.cons_append, (List.cons.inj hfirst).1]⟩
  obtain ⟨right, hhead, hbehind⟩ :=
    exists_head_of_first hfit₁ hbare₁ hfirst h.exists_end h.outside
  have hgains₂ : Outline.Gains (wrap body) o₁
      ⟨p.front ++ (wrap body ++ right), o₁.blocks⟩ := by
    have := Outline.Gains.head (w := wrap body) p.front right o₁.blocks
    rwa [← hhead] at this
  refine ⟨_, hgains₂.fits (isInlay_wrap hbody) hnot hfit₁, ?_,
    hgains₂.map_contents.trans hgains.map_contents⟩
  have htext : Segment.join o₁.segments = p.front ++ (p.mid ++ (wrap bodyEnd ++ (p.right ++
      Segment.join p.later))) := by
    have hfront := congrArg (· ++ (wrap bodyEnd ++ (p.right ++ Segment.join p.later))) h.order
    simp only [List.append_assoc] at hfront
    rw [Outline.segments, hsegments₁, Segment.join_append, Segment.join_cons, Segment.text,
      List.append_assoc, List.append_assoc, hfront]
  rw [hfirst, Segment.join_cons, Segment.text, List.append_assoc] at htext
  rw [Outline.text, Places.text, List.append_assoc, List.append_assoc, ← hbehind,
    List.append_cancel_left htext]

end Accepted

/-- A template without parameters, a description or markers of pages, whose own markers are bare. -/
structure IsUnadorned (text : Text) (template : Template) : Prop where
  lacks : Lacks (.param .template :: pageKinds) text
  undescribed : ∀ segment ∈ template.segments, segment.isRegion = false →
    Skeleton.infoForm.findAll segment.text = []
  bareMarkers : BareMarkers text

instance (text : Text) (template : Template) : Decidable (IsUnadorned text template) :=
  decidable_of_iff (Lacks (.param .template :: pageKinds) text ∧
      (∀ segment ∈ template.segments, segment.isRegion = false →
        Skeleton.infoForm.findAll segment.text = []) ∧ BareMarkers text)
    ⟨fun ⟨h₁, h₂, h₃⟩ => ⟨h₁, h₂, h₃⟩, fun ⟨h₁, h₂, h₃⟩ => ⟨h₁, h₂, h₃⟩⟩

section Laid

variable {text source target : Text} {template : Template} {contents : List (Text × Text)}
  (htemplate : Template.build text source = .ok template) (h : IsUnadorned text template)
  (hcontents : ∀ entry ∈ contents, scan entry.2 = [])

include htemplate h hcontents

omit htemplate h in
theorem lacks_of_scan_eq_nil (kinds : List Kind) :
    ∀ entry ∈ contents, Lacks kinds entry.2 := fun entry hentry token htoken => by
  rw [hcontents entry hentry] at htoken
  cases htoken

/-- An unadorned template, laid out with contents, is an outline of a page. -/
theorem exists_outline_laid : ∃ o : Outline, o.Fits .page ∧ Outline.Bare o.blocks ∧
    Silent (Says settling) o.head ∧
    (template.segments.map (laySegment contents [])).map Segment.unplaced = o.segments ∧
    (o.blocks.map fun b => (b.name, b.content)) =
      (Segment.contents template.segments).map fun entry =>
        (entry.1, (layRegion contents entry.1 entry.2).1) := by
  obtain ⟨o, hfit, rfl, hsegments⟩ := exists_outline_of_template htemplate
  have hvalues : Skeleton.AreValues [] := List.forall_mem_nil _
  have hsilent : Silent (Says settling) o.text := lacks_iff.mp (h.lacks.mono (by decide))
  refine ⟨layOutline contents [] o, fits_layOutline hfit hvalues ?_ fun entry hentry => ?_,
    bare_layOutline contents hvalues (bare_of_bareMarkers hfit h.bareMarkers),
    silent_head_layOutline hfit hvalues hsilent contents,
    map_unplaced_laid hfit hsegments h.undescribed hvalues contents,
    contents_layOutline hfit hsegments contents []⟩
  · exact hsilent.mono fun body => Says.mono (List.subset_cons_self _ _)
  · exact lacks_iff.mp (lacks_of_scan_eq_nil hcontents _ entry hentry)

theorem silent_laid : Silent (Says [.bindingEnd])
    (Segment.join (template.segments.map (laySegment contents []))) := by
  have hlaid := silent_assemble htemplate (h.lacks.mono (by decide)) h.undescribed
    (List.forall_mem_nil _ : Skeleton.AreValues [])
    (lacks_of_scan_eq_nil hcontents [.bindingEnd])
  rwa [assemble_eq, Assembly.text_ofSegments] at hlaid

variable {p : Places} {start close body bodyEnd : Text}
  (hp : p.Fits (template.segments.map (laySegment contents [])) start close)

include hp

/-- Nothing settles the binding before its place. -/
theorem silent_front_of_places : Silent (Says settling) p.front := by
  obtain ⟨o, hfit, hbare, hhead, hsegments, -⟩ := exists_outline_laid htemplate h hcontents
  have hplaces := hp.unplaced
  rw [hsegments] at hplaces
  obtain ⟨rest, others, hfirst, -⟩ := hplaces.opens
  obtain ⟨right, hfront, -⟩ := exists_head_of_first hfit hbare hfirst hplaces.exists_end hp.outside
  rw [hfront] at hhead
  exact hhead.left

/-- From the end of the binding on, the page has the closing tags of the literals and those in the
contents. -/
theorem closingsOf_behind_of_places (name : Text) :
    ∃ more, Tag.closingsOf name (p.right ++ Segment.join p.later) =
        Tag.closingsOf name p.right ++ more ∧
      more.length = Segment.tally (Tag.closingsOf name) p.later +
        Segment.closingsInside name p.later := by
  obtain ⟨o, -, hbare, -, hsegments, -⟩ := exists_outline_laid htemplate h hcontents
  have hplaces := hp.unplaced
  rw [hsegments] at hplaces
  obtain ⟨v, hright⟩ := hp.exists_closing
  have hbehind := Outline.closingsOf_behind name hbare hplaces.segments_eq
    (by rw [show p.unplaced.right = p.right from rfl, hright]; simp)
  rwa [Places.unplaced, Segment.join_map_unplaced, Segment.tally_map_unplaced,
    Segment.closingsInside_map_unplaced] at hbehind

variable (hbody : IsBody body) (hkind : kind? body = some .binding)
  (hbodyEnd : IsBody bodyEnd) (hkindEnd : kind? bodyEnd = some .bindingEnd)

include hbody hkind hbodyEnd hkindEnd

/-- The template with contents and both comments is a page that has these contents. -/
theorem exists_page_of_places (target : Text) :
    ∃ page, Page.build (p.text body bodyEnd) target = .ok page ∧
      Segment.contents page.segments = (Segment.contents template.segments).map fun entry =>
        (entry.1, (layRegion contents entry.1 entry.2).1) := by
  obtain ⟨o, hfit, hbare, -, hsegments, hnames⟩ := exists_outline_laid htemplate h hcontents
  have hplaces := hp.unplaced
  rw [hsegments] at hplaces
  obtain ⟨o', hfit', htext, hcontents'⟩ :=
    exists_outline_of_places hfit hbare hplaces hbody hkind hbodyEnd hkindEnd
  rw [Places.text_unplaced] at htext
  obtain ⟨binding, hbinding⟩ := Page.exists_bindingOf_of_split
    (p.mid ++ (wrap bodyEnd ++ (p.right ++ Segment.join p.later))) hbody hkind
    (silent_front_of_places htemplate h hcontents hp)
  rw [← Places.text, ← htext] at hbinding
  obtain ⟨segments, hbuild, hunplaced⟩ := Outline.build_text hfit'
  refine ⟨_, by rw [← htext, Page.build_of_bound hbinding, hbuild]; rfl, ?_⟩
  dsimp only
  rw [← Segment.contents_map_unplaced, hunplaced, Outline.contents_segments, hcontents', hnames]

variable {page : Page} (hpage : Page.build (p.text body bodyEnd) target = .ok page)

include hpage

/-- Such a page is anchored to the tags that its comments stand beside. -/
theorem anchors_of_places : page.binding.raw = wrap body ∧
    bindingAnchor page = ⟨some start, (Tag.startsOf start p.front).length, []⟩ ∧
    ∃ bindingEnd, page.bindingEnd? = some bindingEnd ∧ bindingEnd.raw = wrap bodyEnd ∧
      bindingEndAnchor page bindingEnd =
        ⟨some close, (Tag.closingsOf close (p.right ++ Segment.join p.later)).length, []⟩ := by
  have htext : page.text = p.text body bodyEnd := (Page.bindingEndOf_of_build hpage).1
  have hfront := silent_front_of_places htemplate h hcontents hp
  obtain ⟨hstart, hraw⟩ := Page.binding_of_split hbody hkind
    (hfront.mono fun body => Says.mono (by decide)) hpage
  have hbefore : page.text.take page.binding.start = p.front ++ [] := by
    rw [htext, hstart, Places.text, List.take_left, List.append_nil]
  obtain ⟨rest, others, -, hopens⟩ := hp.opens
  obtain ⟨earlier, hearlier, -⟩ := Tag.startsOf_cut hopens
  refine ⟨hraw, bindingAnchor_eq_of_mem hbefore rfl (by rw [hearlier]; simp), ?_⟩
  have hsplit : p.text body bodyEnd = (p.front ++ (wrap body ++ p.mid)) ++ (wrap bodyEnd ++
      (p.right ++ Segment.join p.later)) := by simp [Places.text]
  have hlaid := silent_laid htemplate h hcontents
  rw [hp.join_eq, ← List.append_assoc] at hlaid
  have hsilent : Silent (Says [.bindingEnd]) (p.front ++ (wrap body ++ p.mid)) := by
    refine hlaid.left.inlay (isInlay_wrap hbody) ?_
    rw [says_iff_mem hkind]
    decide
  obtain ⟨bindingEnd, hend, hrawEnd, hafter⟩ :=
    Page.exists_bindingEnd_of_split hbodyEnd hkindEnd hsilent (hsplit ▸ hpage) (by
      simp only [hstart, List.length_append, length_wrap]
      omega)
  refine ⟨bindingEnd, hend, hrawEnd, bindingEndAnchor_eq_of_mem (hafter.trans (List.nil_append _).symm)
    rfl ?_⟩
  obtain ⟨more, hmore, -⟩ := closingsOf_behind_of_places htemplate h hcontents hp close
  obtain ⟨-, later, hzero, -⟩ := Tag.closingsOf_cut hp.closes
  rw [List.drop_left] at hzero
  rw [hmore, hzero]
  exact List.mem_cons_self

/-- What is merged with is the template as it was laid out, with the end of the binding put back by
its count. -/
theorem ended_of_places (hnames : Segment.contents page.segments =
      (Segment.contents template.segments).map fun entry =>
        (entry.1, (layRegion contents entry.1 entry.2).1)) :
    ended template page =
      (Assembly.ofSegments (template.segments.map (laySegment contents []))).placeBindingEnd
        (wrap bodyEnd)
        ⟨some close, (Tag.closingsOf close (p.right ++ Segment.join p.later)).length, []⟩ := by
  obtain ⟨-, -, bindingEnd, hend, hraw, hanchor⟩ :=
    anchors_of_places htemplate h hcontents hp hbody hkind hbodyEnd hkindEnd hpage
  have hassemble : (assemble template (Segment.contents page.segments) page.params).1 =
      (assemble template contents []).1 := by
    refine assemble_eq_of_lacks htemplate (h.lacks.mono (by decide)) fun entry hentry => ?_
    rw [layRegion_eq hpage, region?_of_contents (nodup_contents htemplate) hnames hentry,
      Option.getD_some]
  rw [ended, hend, hassemble, assemble_eq]
  dsimp only
  rw [hraw, hanchor]

end Laid

end Merge

/-! ## Where the comments go -/

namespace Assembly

open Merge (Places)

/-- A binding goes to the front of everything or behind a start tag. -/
theorem lead_cases (a : Assembly) (anchor : Anchor) :
    a.lead anchor ++ a.trail anchor = a.text ∧
      (a.lead anchor = [] ∨ ∃ u, a.lead anchor = u ++ [.char '>']) := by
  rw [lead, trail]
  cases hspot : a.bindingSpot? anchor with
  | none => exact ⟨rfl, Or.inl rfl⟩
  | some spot =>
      obtain ⟨tag, hmem⟩ := exists_of_bindingSpot? hspot
      obtain ⟨-, pieces, left, right, others, hcuts⟩ := cuts_of_mem_startSpots hmem
      refine ⟨hcuts.text_eq.symm, Or.inr ⟨pieces.flatten ++ left, ?_⟩⟩
      rw [Option.map_some, Option.getD_some, hcuts.before_eq, List.append_assoc]

/-- A binding does not go into a bare comment, but before it or behind it. -/
theorem text_placeBinding_around {a : Assembly} {x y body : Text}
    (htext : a.text = x ++ (wrap body ++ y)) (hbare : IsBare body) (raw : Text) {anchor : Anchor}
    (hgap : anchor.gap.isBlank = true) : ∃ gap x' y' : Text, gap.isBlank = true ∧
      (a.placeBinding raw anchor).text = x' ++ (wrap body ++ y') ∧
      (a.placeBinding raw anchor).text.length = a.text.length + (gap ++ raw).length ∧
      (x' = x ∨ ∃ l r, x = l ++ r ∧ x' = l ++ ((gap ++ raw) ++ r)) := by
  obtain ⟨gap, hblank, hplaced⟩ := a.text_placeBinding raw hgap
  obtain ⟨hsplit, hend⟩ := a.lead_cases anchor
  have hlength : (a.placeBinding raw anchor).text.length = a.text.length + (gap ++ raw).length := by
    rw [hplaced, ← hsplit]
    simp only [List.length_append]
    omega
  rw [htext] at hsplit
  rcases List.append_eq_append_iff.mp hsplit with ⟨r, hx, hr⟩ | ⟨q, hlead, hq⟩
  · -- the comment is behind the binding
    refine ⟨gap, a.lead anchor ++ ((gap ++ raw) ++ r), y, hblank, ?_, hlength,
      Or.inr ⟨_, r, hx, rfl⟩⟩
    rw [hplaced, hr]
    simp
  · rcases List.append_eq_append_iff.mp hq with ⟨q', hq, -⟩ | ⟨q', hwrap, htrail⟩
    · -- the comment is before the binding
      refine ⟨gap, x, q' ++ ((gap ++ raw) ++ a.trail anchor), hblank, ?_, hlength, Or.inl rfl⟩
      rw [hplaced, hlead, hq]
      simp
    · by_cases hnil : q = []
      · subst hnil
        refine ⟨gap, x ++ ((gap ++ raw) ++ []), y, hblank, ?_, hlength, Or.inr ⟨x, [], by simp, rfl⟩⟩
        rw [hplaced, hlead, htrail, ← List.nil_append q', ← hwrap]
        simp
      · by_cases hnil' : q' = []
        · subst hnil'
          refine ⟨gap, x, (gap ++ raw) ++ a.trail anchor, hblank, ?_, hlength, Or.inl rfl⟩
          rw [hplaced, hlead, hwrap]
          simp
        · rcases hend with hnone | ⟨u, hu⟩
          · rw [hlead, List.append_eq_nil_iff] at hnone
            exact absurd hnone.2 hnil
          · exact absurd hwrap (wrap_ne_of_end hbare (hu.symm.trans hlead) hnil hnil')

section Places

variable {segments : List Segment} {p : Places} {start close body bodyEnd : Text}
  (hp : p.Fits segments start close)

include hp

theorem cuts_of_places : Cuts (ofSegments segments) ⟨p.init.length, p.left.length⟩
    (p.init.map Segment.text) p.left p.right (p.later.map Segment.text) where
  pieces_eq := by
    rw [ofSegments, hp.segments_eq, List.map_append, List.map_cons]
    rfl
  piece_eq := by rw [List.length_map]
  offset_eq := rfl

/-- With its end at its place the binding goes to its place. -/
theorem text_placeBinding_of_places (body bodyEnd : Text) :
    (((ofSegments segments).insertAt ⟨p.init.length, p.left.length⟩ (wrap bodyEnd)).placeBinding
      (wrap body) ⟨some start, (Tag.startsOf start p.front).length, []⟩).text =
        p.text body bodyEnd := by
  obtain ⟨rest, others, hfirst, hopens⟩ := hp.opens
  obtain ⟨earlier, hearlier, hmore⟩ := Tag.startsOf_cut hopens
  rw [(cuts_of_places hp).insertAt_eq]
  -- the first piece still begins with what comes before the binding
  obtain ⟨rest', pieces, hpieces⟩ : ∃ rest' pieces, p.init.map Segment.text ++
      (p.left ++ (wrap bodyEnd ++ p.right)) :: p.later.map Segment.text =
        (p.front ++ rest') :: pieces := by
    have horder := hp.order
    rw [hp.segments_eq] at hfirst
    cases hinit : p.init with
    | nil =>
        rw [hinit, Segment.join_nil, List.nil_append] at horder
        exact ⟨p.mid ++ (wrap bodyEnd ++ p.right), _, by rw [horder]; simp; rfl⟩
    | cons s init =>
        rw [hinit, List.cons_append] at hfirst
        refine ⟨rest, init.map Segment.text ++
          (p.left ++ (wrap bodyEnd ++ p.right)) :: p.later.map Segment.text, ?_⟩
        rw [(List.cons.inj hfirst).1, List.map_cons, List.cons_append]
        rfl
  have hskeleton : ∃ more, (ofSegments segments).skeleton = 0 :: more := by
    rw [ofSegments, hfirst]
    exact ⟨_, rfl⟩
  obtain ⟨more, hskeleton⟩ := hskeleton
  obtain ⟨later, hlater⟩ := hmore rest'
  have hnth : (Tag.startsOf start (p.front ++ rest'))[earlier.length]? = some p.front.length := by
    rw [hlater, hearlier]
    simp
  have htext : rest' ++ pieces.flatten =
      p.mid ++ (wrap bodyEnd ++ (p.right ++ Segment.join p.later)) := by
    have hflat := congrArg List.flatten hpieces
    have hfront := congrArg (· ++ (wrap bodyEnd ++ (p.right ++ Segment.join p.later))) hp.order
    simp only [List.append_assoc] at hfront
    rw [List.flatten_append, List.flatten_cons, List.flatten_cons, ← List.flatMap_def,
      ← List.flatMap_def, ← Segment.join, ← Segment.join, List.append_assoc p.left,
      List.append_assoc (wrap bodyEnd), hfront, List.append_assoc] at hflat
    exact (List.append_cancel_left hflat).symm
  rw [hearlier, List.length_append, List.length_singleton,
    placeBinding_nth (a := ⟨_, (ofSegments segments).skeleton⟩) hpieces hskeleton hnth, Places.text,
    ← htext]
  simp [Assembly.text]

/-- A spot with text behind it that precedes the place of the end comes before it in the text. -/
theorem length_before_lt {spot : Spot} {pieces others : List Text} {g : Glyph} {left right : Text}
    (hcuts : Cuts (ofSegments segments) spot pieces left (g :: right) others)
    (hprecedes : Precedes spot p.init p.left) :
    ((ofSegments segments).before spot).length < (p.front ++ p.mid).length := by
  have hpieces := hcuts.pieces_eq.symm.trans (cuts_of_places hp).pieces_eq
  rw [hcuts.before_eq, ← hp.order, List.length_append, List.length_append, Segment.join,
    List.flatMap_def]
  rcases hprecedes with hpiece | ⟨hpiece, hoffset⟩
  · rw [hcuts.piece_eq] at hpiece
    rcases List.append_eq_append_iff.mp hpieces with ⟨m, hinit, hm⟩ | ⟨m, hinit, -⟩
    · cases m with
      | nil =>
          have hsame := congrArg List.length hinit
          simp only [List.length_map, List.append_nil] at hsame
          omega
      | cons piece m =>
          rw [hinit, ← (List.cons.inj hm).1]
          simp only [List.flatten_append, List.flatten_cons, List.length_append, List.length_cons]
          omega
    · have hmore := congrArg List.length hinit
      simp only [List.length_map, List.length_append] at hmore
      omega
  · rw [hcuts.piece_eq] at hpiece
    rw [hcuts.offset_eq] at hoffset
    obtain ⟨rfl, -⟩ := List.append_inj hpieces (by rw [List.length_map, hpiece])
    omega

/-- With its end further in front, the text is another one. -/
theorem text_placeBinding_ne (hsilent : Silent (Says [.bindingEnd]) (Segment.join segments))
    (hbody : IsBody body) (hkind : kind? body = some .binding) (hbodyEnd : IsBody bodyEnd)
    (hkindEnd : kind? bodyEnd = some .bindingEnd) {name : Text} {spot : Spot}
    (hspot : spot ∈ (ofSegments segments).closingSpots name)
    (hprecedes : Precedes spot p.init p.left) {anchor : Anchor} (hgap : anchor.gap.isBlank = true) :
    (((ofSegments segments).insertAt spot (wrap bodyEnd)).placeBinding (wrap body) anchor).text ≠
      p.text body bodyEnd := by
  intro heq
  obtain ⟨-, pieces, left, right, others, hcuts⟩ := cuts_of_mem_closingSpots hspot
  have htext := hcuts.text_eq
  rw [text_ofSegments] at htext
  have hbefore := length_before_lt hp hcuts hprecedes
  have hsplit : p.text body bodyEnd = (p.front ++ (wrap body ++ p.mid)) ++ (wrap bodyEnd ++
      (p.right ++ Segment.join p.later)) := by simp [Places.text]
  have hnot : ¬ Says [.bindingEnd] body := by
    rw [says_iff_mem hkind]
    decide
  have hlaid := hsilent
  rw [hp.join_eq, ← List.append_assoc] at hlaid
  obtain ⟨gap, x, y, hblank, hplaced, hlength, hx⟩ := text_placeBinding_around
    (hcuts.text_insertAt (wrap bodyEnd)) (isBare_of_bindingEnd hkindEnd) (wrap body) hgap
  -- no blanks come in
  have hgapLength : gap.length = 0 := by
    have hjoin := congrArg List.length hp.join_eq
    have hall := congrArg List.length htext
    rw [heq, hsplit, hcuts.text_insertAt] at hlength
    simp only [List.length_append] at hlength hjoin hall
    omega
  have hxLength : x.length ≤ ((ofSegments segments).before spot).length + (wrap body).length := by
    rcases hx with rfl | ⟨l, r, hlr, rfl⟩
    · exact Nat.le_add_right _ _
    · rw [hlr]
      simp only [List.length_append]
      omega
  have hxSilent : Silent (Says [.bindingEnd]) x := by
    rw [htext] at hsilent
    rcases hx with rfl | ⟨l, r, hlr, rfl⟩
    · exact hsilent.left
    · have hleft := hsilent.left
      rw [hlr] at hleft
      exact hleft.inlay (isInlay_blanks_wrap hblank hbody) hnot
  have hsame := length_eq_of_first hbodyEnd hkindEnd hxSilent (hlaid.left.inlay (isInlay_wrap hbody) hnot)
    (hplaced.symm.trans (heq.trans hsplit))
  simp only [List.length_append] at hsame hbefore
  omega

end Places

end Assembly

/-- A page that has the skeleton of its template, contents without markers, its binding behind a
start tag before the regions and the end of the binding before a closing tag further behind is
accepted. Merging leaves it as it is just when that closing tag is the first of its name in the
skeleton, or no content behind it holds another one. -/
theorem text_merge_eq_iff {text source : Text} {template : Template}
    {contents : List (Text × Text)} {p : Merge.Places} {start close body bodyEnd : Text}
    (htemplate : Template.build text source = .ok template) (h : Merge.IsUnadorned text template)
    (hcontents : ∀ entry ∈ contents, scan entry.2 = [])
    (hp : p.Fits (template.segments.map (Merge.laySegment contents [])) start close)
    (hbody : IsBody body) (hkind : kind? body = some .binding) (hbodyEnd : IsBody bodyEnd)
    (hkindEnd : kind? bodyEnd = some .bindingEnd) (target : Text) :
    ∃ page, Page.build (p.text body bodyEnd) target = .ok page ∧
      ((merge template page).text = p.text body bodyEnd ↔
        p.EndsFirst close ∨ p.HidesNone close) := by
  obtain ⟨page, hpage, hnames⟩ := Merge.exists_page_of_places htemplate h hcontents hp hbody hkind
    hbodyEnd hkindEnd target
  refine ⟨page, hpage, ?_⟩
  obtain ⟨hraw, hanchor, -⟩ := Merge.anchors_of_places htemplate h hcontents hp hbody hkind
    hbodyEnd hkindEnd hpage
  have hended := Merge.ended_of_places htemplate h hcontents hp hbody hkind hbodyEnd hkindEnd hpage
    hnames
  have hsilent := Merge.silent_laid htemplate h hcontents
  obtain ⟨more, hmore, hmoreLength⟩ :=
    Merge.closingsOf_behind_of_places htemplate h hcontents hp close
  obtain ⟨before, behind, hspots, hprecedes, hfirst, hbehind⟩ :=
    Assembly.closingSpots_ofSegments p.init p.later hp.closes
  rw [← hp.segments_eq] at hspots
  -- the count leads as many spots too far as there are closing tags in the contents
  have hcount : (Tag.closingsOf close (p.right ++ Segment.join p.later)).length =
      (behind.length + 1) + Segment.closingsInside close p.later := by
    rw [hmore, List.length_append, hmoreLength]
    omega
  have hpick := Assembly.pickFromEnd_append before behind ⟨p.init.length, p.left.length⟩
    (Segment.closingsInside close p.later)
  rw [← hspots, ← hcount] at hpick
  have hplaced : ∀ spot, (before ++ ⟨p.init.length, p.left.length⟩ :: behind)[before.length -
      Segment.closingsInside close p.later]? = some spot → (merge template page).text =
        (((Assembly.ofSegments (template.segments.map
          (Merge.laySegment contents []))).insertAt spot (wrap bodyEnd)).placeBinding (wrap body)
            ⟨some start, (Tag.startsOf start p.front).length, []⟩).text := fun spot hspot => by
    rw [← hspots] at hspot
    rw [Merge.text_merge_eq, hended, hraw, hanchor, Assembly.placeBindingEnd]
    simp only [Assembly.insertBeforeClosingTag, hpick, hspot, Option.map_some, List.append_nil]
  have hhides : p.HidesNone close ↔ Segment.closingsInside close p.later = 0 :=
    Segment.closingsInside_eq_zero_iff.symm
  rw [Merge.Places.EndsFirst, ← hfirst, ← List.length_eq_zero_iff, hhides]
  constructor
  · intro hsame
    by_contra hneither
    rw [not_or] at hneither
    -- the spot that is found is one of those before
    have hlt : before.length - Segment.closingsInside close p.later < before.length := by omega
    have hspot : (before ++ ⟨p.init.length, p.left.length⟩ :: behind)[before.length -
        Segment.closingsInside close p.later]? =
          some before[before.length - Segment.closingsInside close p.later] := by
      rw [List.getElem?_append_left hlt, List.getElem?_eq_getElem hlt]
    have hmem := List.getElem_mem hlt
    have hfound : before[before.length - Segment.closingsInside close p.later] ∈
        (Assembly.ofSegments (template.segments.map
          (Merge.laySegment contents []))).closingSpots close := by
      rw [hspots]
      exact List.mem_append_left _ hmem
    exact Assembly.text_placeBinding_ne hp hsilent hbody hkind hbodyEnd hkindEnd hfound
      (hprecedes _ hmem) rfl ((hplaced _ hspot).symm.trans hsame)
  · intro heither
    have hindex : before.length - Segment.closingsInside close p.later = before.length := by omega
    rw [hplaced ⟨p.init.length, p.left.length⟩ (by rw [hindex]; simp),
      Assembly.text_placeBinding_of_places hp]

/-- A template with two paragraphs before its region. -/
def closedTwice : Text :=
  Text.concat ["<html><body><p>1</p><p>2</p>", wrap "TemplateBeginEditable name=\"r\"",
    wrap "TemplateEndEditable", "</body></html>"]

/-- Behind its `html` tag, and before the end of the second paragraph, with a third one in the
region. -/
def heldBetween : Merge.Places where
  front := "<html>"
  mid := "<body><p>1</p><p>2"
  init := []
  left := "<html><body><p>1</p><p>2"
  right := "</p>" ++ wrap "InstanceBeginEditable name=\"r\""
  later := [.region "r" "<p>x</p>" ⟨⟨0, 65⟩, ⟨0, 65⟩⟩,
    .literal (wrap "InstanceEndEditable" ++ "</body></html>")]

/-- Merging may take the end of a binding away from its tag. -/
theorem text_merge_ne_heldBetween : ∃ template page, Template.build closedTwice [] = .ok template ∧
    Page.build (heldBetween.text "InstanceBegin template=\"/t.dwt\"" "InstanceEnd") [] = .ok page ∧
      (merge template page).text ≠
        heldBetween.text "InstanceBegin template=\"/t.dwt\"" "InstanceEnd" := by
  have hrun : passes closedTwice
      (heldBetween.text "InstanceBegin template=\"/t.dwt\"" "InstanceEnd") (fun template _ =>
        decide (Merge.IsUnadorned closedTwice template ∧
          template.segments.map (Merge.laySegment [("r", "<p>x</p>")] []) =
            heldBetween.init ++ .literal (heldBetween.left ++ heldBetween.right) ::
              heldBetween.later)) = true := by
    rw [closedTwice, heldBetween]
    repeat rw [Text.ofString_ofList]
    decide +kernel
  obtain ⟨template, -, htemplate, -, htest⟩ := exists_of_passes hrun
  obtain ⟨hunadorned, hsegments⟩ := of_decide_eq_true htest
  have hplaces : heldBetween.Fits (template.segments.map
      (Merge.laySegment [("r", "<p>x</p>")] [])) "html" "p" := {
    segments_eq := hsegments
    order := rfl
    opens := ⟨heldBetween.mid ++ heldBetween.right, heldBetween.later, hsegments,
      by decide +kernel⟩
    outside := by decide +kernel
    closes := by decide +kernel }
  have hbody : IsBody "InstanceBegin template=\"/t.dwt\"" := by decide +kernel
  have hbodyEnd : IsBody "InstanceEnd" := by decide +kernel
  obtain ⟨page, hpage, hiff⟩ := text_merge_eq_iff htemplate hunadorned (by decide +kernel) hplaces
    hbody (by decide +kernel) hbodyEnd (by decide +kernel) []
  refine ⟨template, page, htemplate, hpage, fun hsame => ?_⟩
  rcases hiff.mp hsame with ⟨-, hfirst⟩ | hnone
  · exact absurd (hfirst 16 (by decide +kernel)) (by decide +kernel)
  · exact absurd (hnone ("r", "<p>x</p>") (by decide +kernel)) (by decide +kernel)

end Stencil
