import Stencil.Merge
import Stencil.Proofs.Assembly.Spots
import Stencil.Proofs.Document.Binding

/-!
# The binding of a merged page

A merge writes the binding of the page somewhere into the template that has been laid out, and
nothing else decides what the merged text is bound to than what then stands before it
(`merge_keepsBinding_iff`). A template with a region, or with a binding of its own, before the tag
that the page's binding stood behind takes the binding away from the page.
-/

namespace Stencil

open Marker

namespace Merge

theorem isBlank_blankOrNone (gap : Text) : (blankOrNone gap).isBlank = true := by
  rw [blankOrNone]
  split
  · next h => exact h
  · rfl

theorem isBlank_bindingAnchor (page : Page) : (bindingAnchor page).gap.isBlank = true := by
  unfold bindingAnchor
  dsimp only
  split <;> exact isBlank_blankOrNone _

theorem isBlank_bindingEndAnchor (page : Page) (bindingEnd : Token) :
    (bindingEndAnchor page bindingEnd).gap.isBlank = true := by
  unfold bindingEndAnchor
  dsimp only
  split
  · split <;> exact isBlank_blankOrNone _
  · exact isBlank_blankOrNone _

/-- The template laid out for a page, with the end of the page's binding put back. -/
def ended (template : Template) (page : Page) : Assembly :=
  let assembly := (assemble template (Segment.contents page.segments) page.params).1
  match page.bindingEnd? with
  | some bindingEnd => assembly.placeBindingEnd bindingEnd.raw (bindingEndAnchor page bindingEnd)
  | none => assembly

/-- What comes to stand before the binding in the merged page. -/
def lead (template : Template) (page : Page) : Text :=
  (ended template page).lead (bindingAnchor page)

/-- What comes to stand behind the binding in the merged page. -/
def trail (template : Template) (page : Page) : Text :=
  (ended template page).trail (bindingAnchor page)

theorem text_merge_eq (template : Template) (page : Page) : (merge template page).text =
    ((ended template page).placeBinding page.binding.raw (bindingAnchor page)).text := rfl

theorem text_merge (template : Template) (page : Page) : ∃ gap : Text, gap.isBlank = true ∧
    (merge template page).text =
      lead template page ++ ((gap ++ page.binding.raw) ++ trail template page) :=
  Assembly.text_placeBinding _ _ (isBlank_bindingAnchor page)

end Merge

/-- A text that is bound just as a page is: it is not rejected for its binding, and its first
binding is written as that of the page and names the same template. -/
structure Page.KeepsBinding (page : Page) (text : Text) : Prop where
  accepted : ∀ source fault, Page.build text source = .error fault →
    fault.finding.reason ≠ "missing_binding"
  raw_eq : (firstBinding? (scan text)).map (·.raw) = some page.binding.raw
  reference_eq : readBinding? text = some page.templateRef

theorem Page.keepsBinding_iff {text source : Text} {page : Page}
    (h : Page.build text source = .ok page) (other : Text) :
    page.KeepsBinding other ↔
      (said other).find? (fun entry => settles entry.1) = some (.binding, page.binding.raw) := by
  have hsaid := find?_said settles other
  have hbound : ∀ binding, bindingOf (scan other) = .ok binding ↔
      (scan other).find? (fun token => settles token.kind) = some binding ∧
        binding.kind = .binding := fun binding =>
    bindingOf_eq_ok_iff (pairwise_tokensFrom (Position.lineStarts other) 0 other)
  constructor
  · rintro ⟨haccepted, hraw, -⟩
    obtain ⟨binding, hbinding⟩ := (exists_bindingOf_iff other []).mpr (haccepted [])
    obtain ⟨hfind, hkind⟩ := (hbound binding).mp hbinding
    rw [firstBinding?_of_bindingOf hbinding, Option.map_some] at hraw
    rw [hsaid, hfind, Option.map_some, hkind, Option.some.inj hraw]
  · intro hfirst
    rw [hsaid] at hfirst
    obtain ⟨binding, hfind, heq⟩ := Option.map_eq_some_iff.mp hfirst
    obtain ⟨hkind, hraw⟩ := Prod.mk.inj heq
    have hbinding := (hbound binding).mpr ⟨hfind, hkind⟩
    have hread := firstBinding?_of_bindingOf hbinding
    refine ⟨fun source => (exists_bindingOf_iff other source).mp ⟨binding, hbinding⟩, ?_, ?_⟩
    · rw [hread, Option.map_some, hraw]
    · -- the reference is read off the raw text
      obtain ⟨body, -, -, hname, hwrap⟩ := exists_body_of_bindingOf hbinding
      obtain ⟨body', -, -, hname', hwrap'⟩ := exists_body_of_bindingOf (bindingOf_of_build h)
      obtain rfl : body = body' := wrap_inj (by rw [← hwrap, hraw, hwrap'])
      rw [readBinding?, hread, Option.map_some, ← hname, hname', templateRef]

/-- The binding stands between what was laid out in front of it and what was laid out behind. -/
theorem Merge.said_merge {text source : Text} {page : Page} {params : List Param}
    (h : Page.build text source = .ok { page with params := params }) (template : Template) :
    said (merge template page).text = said (Merge.lead template page) ++
      (.binding, page.binding.raw) :: said (Merge.trail template page) := by
  obtain ⟨body, hbody, hkind, -, hraw⟩ :=
    Page.exists_body_of_bindingOf (Page.bindingOf_of_build h)
  obtain ⟨gap, hgap, htext⟩ := Merge.text_merge template page
  rw [htext, hraw, said, isInlay_blanks_wrap hgap hbody, List.filterMap_append,
    List.filterMap_cons, hkind]
  rfl

/-- The merged page keeps its binding just when nothing that settles the binding stands before the
place it is put back to, or the first such marker is the same binding. -/
theorem merge_keepsBinding_iff {text source : Text} {page : Page}
    (h : Page.build text source = .ok page) (template : Template) :
    page.KeepsBinding (merge template page).text ↔
      ∀ first, (scan (Merge.lead template page)).find? (fun token => Page.settles token.kind) =
        some first → first.kind = .binding ∧ first.raw = page.binding.raw := by
  rw [Page.keepsBinding_iff h, Merge.said_merge h, List.find?_append, find?_said]
  cases hfirst : (scan (Merge.lead template page)).find? (fun token => Page.settles token.kind) with
  | none => simp [Page.settles]
  | some first => simp

/-- A template with a region before its body tag. -/
def regionInHead : Text :=
  Text.concat ["<html><head>", wrap "TemplateBeginEditable name=\"h\"", wrap "TemplateEndEditable",
    "</head><body>", "</body></html>"]

/-- A page whose binding stands behind its body tag. -/
def boundInBody : Text :=
  Text.concat ["<html><body>", wrap "InstanceBegin template=\"/t.dwt\"", "</body></html>"]

/-- A page may lose its binding: its place may come to lie behind a region. -/
theorem not_keepsBinding_regionInHead : ∃ template page,
    Template.build regionInHead [] = .ok template ∧ Page.build boundInBody [] = .ok page ∧
      ¬ page.KeepsBinding (merge template page).text := by
  have hrun : passes regionInHead boundInBody (fun template page =>
      ((scan (Merge.lead template page)).find? fun token => Page.settles token.kind).map (·.kind) =
        some (.regionBegin .page)) = true := by decide +kernel
  obtain ⟨template, page, htemplate, hpage, hregion⟩ := exists_of_passes hrun
  refine ⟨template, page, htemplate, hpage, fun hkeeps => ?_⟩
  obtain ⟨first, hfirst, hkind⟩ := Option.map_eq_some_iff.mp (of_decide_eq_true hregion)
  have hbinding := ((merge_keepsBinding_iff hpage template).mp hkeeps first hfirst).1
  rw [hkind] at hbinding
  cases hbinding

end Stencil
