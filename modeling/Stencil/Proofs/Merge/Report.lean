import Stencil.Proofs.Document.Segmentation
import Stencil.Proofs.Merge.Stable

/-!
# What a merge reports

The report of a merge goes through the regions of the template and then through those of the page
that the template lacks (`changes_merge`). Names in a document are distinct, so the report names
every region of either once (`nodup_name_changes`), and what it says of a region can be read off the
two documents: an entry on a region of the template says what is laid for it (`isLaid_of_mem`), one
on any other region says what is gone (`removed_of_mem`). So no content of the page is left out, and
none is reported twice (`changes_account`).
-/

namespace Stencil

namespace Merge

/-- An entry on a region of the template. The region is the `i`-th piece of what is laid out; its
status goes by what the page has of it. -/
structure IsLaid (template : Template) (page : Page) (change : Change) : Prop where
  old_eq : change.old = Segment.region? page.segments change.name
  laid : ∃ (i : Nat) (default : Text) (span : Range),
    template.segments[i]? = some (.region change.name default span) ∧
    change.new = some (change.old.getD default) ∧
    change.new = (assemble template (Segment.contents page.segments) page.params).1.pieces[i]? ∧
    (change.status = .unchanged ↔ change.old = some default) ∧
    (change.status = .contentKept ↔ ∃ own, change.old = some own ∧ own ≠ default) ∧
    (change.status = .added ↔ change.old = none)

/-- An entry on a region of the page that is gone. -/
structure IsGone (page : Page) (change : Change) : Prop where
  status_eq : change.status = .removed
  old_eq : ∃ own, change.old = some own ∧ (change.name, own) ∈ Segment.contents page.segments
  new_eq : change.new = none

/-- The regions of a page that a template does not declare. -/
def foreignNames (template : Template) (page : Page) : List Text :=
  (Segment.regionNames page.segments).filter (· ∉ Segment.regionNames template.segments)

/-- The entry of a report on a content of a page: it tells the content, and that it is kept as the
content of the region or removed with it. -/
def Accounts (change : Change) (entry : Text × Text) : Prop :=
  change.name = entry.1 ∧ change.old = some entry.2 ∧
    ((change.status = .unchanged ∨ change.status = .contentKept) ∧ change.new = some entry.2 ∨
      change.status = .removed ∧ change.new = none)

section Parts

variable {text source text' source' : Text} {template : Template} {page : Page}

theorem changes_merge (template : Template) (page : Page) : (merge template page).changes =
    ((Segment.contents template.segments).map fun entry =>
      (layRegion (Segment.contents page.segments) entry.1 entry.2).2) ++ removals template page :=
  congrArg (· ++ removals template page) (changes_layFrom _ _ _ _)

theorem name_layRegion (contents : List (Text × Text)) (name default : Text) :
    (layRegion contents name default).2.name = name := by
  rw [layRegion]
  split <;> rfl

theorem map_name_laid (contents : List (Text × Text)) (template : Template) :
    ((Segment.contents template.segments).map fun entry =>
      (layRegion contents entry.1 entry.2).2).map (·.name) =
        Segment.regionNames template.segments := by
  rw [List.map_map, Segment.regionNames_eq_map_contents]
  exact List.map_congr_left fun entry _ => name_layRegion contents entry.1 entry.2

theorem map_name_removals (template : Template) (page : Page) :
    (removals template page).map (·.name) = foreignNames template page := by
  rw [foreignNames, Segment.regionNames_eq_map_contents page.segments, removals, List.map_map,
    List.filter_map]
  rfl

/-- A region of the template is laid as the piece of its own index. -/
theorem isLaid_of_mem (hpage : Page.build text' source' = .ok page) {change : Change}
    (h : change ∈ (Segment.contents template.segments).map fun entry =>
      (layRegion (Segment.contents page.segments) entry.1 entry.2).2) :
    IsLaid template page change := by
  obtain ⟨⟨name, default⟩, hentry, rfl⟩ := List.mem_map.mp h
  obtain ⟨segment, hsegment, heq⟩ := List.mem_filterMap.mp hentry
  obtain ⟨i, hi⟩ := List.mem_iff_getElem?.mp hsegment
  cases segment with
  | literal => cases heq
  | region name' default' span =>
      obtain ⟨rfl, rfl⟩ := Prod.mk.inj (Option.some.inj heq)
      have hpiece : (assemble template (Segment.contents page.segments) page.params).1.pieces[i]? =
          some (layRegion (Segment.contents page.segments) name' default').1 := by
        rw [assemble_eq, Assembly.ofSegments, List.map_map, List.getElem?_map, hi]
        rfl
      rw [layRegion_eq hpage] at hpiece
      cases hown : Segment.region? page.segments name' with
      | none =>
          have hreport : (layRegion (Segment.contents page.segments) name' default').2 =
              ⟨name', .added, none, some default'⟩ := by
            rw [layRegion, content?_eq_region? hpage, hown]
          rw [hown] at hpiece
          rw [hreport]
          exact ⟨hown.symm, i, default', span, hi, rfl, hpiece.symm, by simp, by simp, by simp⟩
      | some own =>
          have hreport : (layRegion (Segment.contents page.segments) name' default').2 =
              ⟨name', if own = default' then .unchanged else .contentKept, some own, some own⟩ := by
            rw [layRegion, content?_eq_region? hpage, hown]
          rw [hown] at hpiece
          rw [hreport]
          refine ⟨hown.symm, i, default', span, hi, rfl, hpiece.symm, ?_, ?_, ?_⟩ <;>
            by_cases hsame : own = default' <;> simp [hsame]

theorem removed_of_mem {change : Change} (h : change ∈ removals template page) :
    IsGone page change := by
  obtain ⟨entry, hentry, rfl⟩ := List.mem_map.mp h
  exact ⟨rfl, ⟨entry.2, rfl, (List.mem_filter.mp hentry).1⟩, rfl⟩

/-- The report names every region once. -/
theorem nodup_name_changes (htemplate : Template.build text source = .ok template)
    (hpage : Page.build text' source' = .ok page) :
    ((merge template page).changes.map (·.name)).Nodup := by
  rw [changes_merge, List.map_append, map_name_laid, map_name_removals]
  refine List.nodup_append.mpr ⟨((build_segmented text source).1 template htemplate).nodup,
    (((build_segmented text' source').2 page hpage).nodup).filter _, ?_⟩
  rintro name hname _ hforeign rfl
  exact of_decide_eq_true (List.mem_filter.mp hforeign).2 hname

theorem filter_name_eq_singleton {changes : List Change} (h : (changes.map (·.name)).Nodup)
    {change : Change} (hmem : change ∈ changes) :
    changes.filter (fun other => other.name = change.name) = [change] := by
  obtain ⟨before, behind, rfl⟩ := List.append_of_mem hmem
  rw [List.map_append, List.map_cons, List.nodup_append] at h
  obtain ⟨-, hbehind, hapart⟩ := h
  have hfront : before.filter (fun other => other.name = change.name) = [] := by
    rw [List.filter_eq_nil_iff]
    intro other hother heq
    exact hapart _ (List.mem_map_of_mem hother) _ List.mem_cons_self (of_decide_eq_true heq)
  have hback : behind.filter (fun other => other.name = change.name) = [] := by
    rw [List.filter_eq_nil_iff]
    intro other hother heq
    refine (List.nodup_cons.mp hbehind).1 ?_
    rw [← of_decide_eq_true heq]
    exact List.mem_map_of_mem hother
  rw [List.filter_append, hfront, List.nil_append, List.filter_cons_of_pos (by simp), hback]

/-- A content of the page is accounted for by some entry. -/
theorem exists_accounts (hpage : Page.build text' source' = .ok page) {entry : Text × Text}
    (h : entry ∈ Segment.contents page.segments) :
    ∃ change ∈ (merge template page).changes, Accounts change entry := by
  rw [changes_merge]
  by_cases hkept : entry.1 ∈ Segment.regionNames template.segments
  · rw [Segment.regionNames_eq_map_contents] at hkept
    obtain ⟨⟨name, default⟩, hdeclared, hname⟩ := List.mem_map.mp hkept
    obtain rfl : name = entry.1 := hname
    have hnodup : ((Segment.contents page.segments).map Prod.fst).Nodup := by
      rw [← Segment.regionNames_eq_map_contents]
      exact ((build_segmented text' source').2 page hpage).nodup
    have hown : Segment.region? page.segments entry.1 = some entry.2 :=
      region?_of_contents hnodup (List.map_id _).symm h
    refine ⟨_, List.mem_append_left _ (List.mem_map_of_mem hdeclared), name_layRegion _ _ _, ?_⟩
    rw [layRegion, content?_eq_region? hpage, hown]
    refine ⟨rfl, Or.inl ⟨?_, rfl⟩⟩
    dsimp only
    split
    · exact Or.inl rfl
    · exact Or.inr rfl
  · refine ⟨⟨entry.1, .removed, some entry.2, none⟩, List.mem_append_right _ ?_, rfl, rfl,
      Or.inr ⟨rfl, rfl⟩⟩
    exact List.mem_map_of_mem (List.mem_filter.mpr ⟨h, decide_eq_true hkept⟩)

end Parts

/-- The report of a merge has one entry on each region of the template, in order, that says what is
laid for it, and then one on each other region of the page, in order, that says what is gone. So
every content of the page is told in just one entry, as kept or as removed. -/
theorem changes_account {text source text' source' : Text} {template : Template} {page : Page}
    (htemplate : Template.build text source = .ok template)
    (hpage : Page.build text' source' = .ok page) :
    (∃ laid gone, (merge template page).changes = laid ++ gone ∧
      laid.map (·.name) = Segment.regionNames template.segments ∧
      gone.map (·.name) = foreignNames template page ∧
      (∀ change ∈ laid, IsLaid template page change) ∧ ∀ change ∈ gone, IsGone page change) ∧
    ((merge template page).changes.map (·.name)).Nodup ∧
    ∀ entry ∈ Segment.contents page.segments, ∃ change,
      (merge template page).changes.filter (fun change => change.name = entry.1) = [change] ∧
        Accounts change entry := by
  have hnodup := nodup_name_changes htemplate hpage
  refine ⟨⟨_, _, changes_merge template page, map_name_laid _ template,
    map_name_removals template page, fun _ => isLaid_of_mem hpage, fun _ => removed_of_mem⟩,
    hnodup, fun entry hentry => ?_⟩
  obtain ⟨change, hmem, haccounts⟩ := exists_accounts hpage hentry
  exact ⟨change, haccounts.1 ▸ filter_name_eq_singleton hnodup hmem, haccounts⟩

/-- A page that lacks the first region of the template and has one of its own. -/
theorem changes_account_twoRegions : ∃ template page,
    Template.build twoRegions [] = .ok template ∧ Page.build otherRegions [] = .ok page ∧
      (merge template page).changes.map (·.name) =
        ([.ofString "a", .ofString "b", .ofString "c"] : List Text) ∧
      ∀ entry ∈ Segment.contents page.segments, ∃ change,
        (merge template page).changes.filter (fun change => change.name = entry.1) = [change] ∧
          Accounts change entry := by
  have hrun : passes twoRegions otherRegions (fun template page =>
      decide ((merge template page).changes.map (·.name) =
        ([.ofString "a", .ofString "b", .ofString "c"] : List Text))) = true := by
    rw [twoRegions, otherRegions]
    repeat rw [Text.ofString_ofList]
    decide +kernel
  obtain ⟨template, page, htemplate, hpage, htest⟩ := exists_of_passes hrun
  obtain ⟨-, -, haccounts⟩ := changes_account htemplate hpage
  exact ⟨template, page, htemplate, hpage, of_decide_eq_true htest, haccounts⟩

end Merge

end Stencil
