import Stencil.Proofs.Merge.Encoding
import Stencil.Proofs.Run.Confinement
import Stencil.Proofs.Run.UpToDate

/-!
# Running again

A page that has been merged is read back from its bytes as it was merged, and it is up to date
(`IsPageOf.again`). So a run that approves everything and fails at no file leaves all its files up to
date (`Tour.settles`, `run_settles`), and a second run over them changes nothing (`second_run_idle`):
it does not even begin a backup, and what the first one has backed up can still be restored.
-/

namespace Stencil

open Stencil.Path (IsName)
open Stencil.Tree (OnWay Retains place)

namespace Run

variable {job : Job Sim} {template : Template} {templateName : Text} {run? : Option Text}
  {path : Path} {paths : List Path} {s s' s'' : Standing Progress} {visits : List Visit}
  {text : Text} {page : Page}

/-! ## A run that approves everything -/

/-- What a file comes to hold that is left alone or merged. -/
inductive Carried (template : Template) (templateName : Text) : Option Bytes → Option Bytes → Prop
  | same (held? : Option Bytes) : Carried template templateName held? held?
  | merged {bytes : Bytes} {page : Page} (h : IsPageOf templateName (Text.decode bytes) page) :
      Carried template templateName (some bytes) (some (merge template page).text.encode)

/-- There is a file, and it is up to date. -/
def IsSettled (template : Template) (templateName : Text) (held? : Option Bytes) : Prop :=
  ∃ bytes, held? = some bytes ∧ UpToDate template templateName (Text.decode bytes)

/-- If the file is a page of the template, the page is bound between its outermost tags. -/
def IsFit (templateName : Text) (held? : Option Bytes) : Prop :=
  ∀ bytes page, held? = some bytes → IsPageOf templateName (Text.decode bytes) page →
    Merge.IsBoundAround page

theorem isFit_iff {held? : Option Bytes} : IsFit templateName held? ↔
    ∀ bytes ∈ held?, ∀ page ∈ (Page.build (Text.decode bytes) []).toOption,
      page.templateName = templateName → Merge.IsBoundAround page := by
  constructor
  · intro h bytes hheld page hpage hname
    cases hbuild : Page.build (Text.decode bytes) [] with
    | error fault =>
        rw [hbuild] at hpage
        cases hpage
    | ok built =>
        rw [hbuild] at hpage
        obtain rfl := Option.some.inj hpage
        exact h bytes _ hheld ⟨hbuild, hname⟩
  · intro h bytes page hheld hpage
    exact h bytes hheld page (by rw [hpage.build]; rfl) hpage.name

instance (templateName : Text) (held? : Option Bytes) : Decidable (IsFit templateName held?) :=
  decidable_of_iff _ isFit_iff.symm

section Plain

variable {file bytes : Bytes} {source : Text} {held? held'? : Option Bytes}
  (htemplate : Template.build (Text.decode file) source = .ok template)
  (hplain : Merge.IsPlain (Text.decode file) template)

include htemplate hplain

/-- A merged page is written and read back as a page of the template that is up to date. -/
theorem IsPageOf.again (h : IsPageOf templateName (Text.decode bytes) page)
    (hbound : Merge.IsBoundAround page) :
    (∃ again, IsPageOf templateName (Text.decode (merge template page).text.encode) again) ∧
      UpToDate template templateName (Text.decode (merge template page).text.encode) := by
  rw [Merge.decode_encode_merge htemplate hplain h.build hbound]
  obtain ⟨again, hagain, hname, hsame⟩ :=
    Merge.exists_again htemplate hplain h.build hbound []
  refine ⟨⟨again, hagain, hname.trans h.name⟩, fun other hother => ?_⟩
  obtain rfl := Except.ok.inj (hagain.symm.trans hother.build)
  exact hsame

theorem Carried.upshot? (hfit : IsFit templateName held?)
    (h : Carried template templateName held? held'?) :
    (held'?.bind fun bytes => upshot? templateName (Text.decode bytes)) =
      held?.bind fun bytes => upshot? templateName (Text.decode bytes) := by
  cases h with
  | same => rfl
  | merged hpage =>
      obtain ⟨⟨again, hagain⟩, -⟩ := hpage.again htemplate hplain (hfit _ _ rfl hpage)
      rw [Option.bind_some, Option.bind_some, hagain.upshot?, hpage.upshot?]

/-- A page is merged at most once, and then it is up to date. -/
theorem Carried.merge (hfit : IsFit templateName held?)
    (h : Carried template templateName held? (some bytes))
    (hchanges : Changes template templateName path (Text.decode bytes) page) :
    Carried template templateName held? (some (merge template page).text.encode) ∧
      IsSettled template templateName (some (merge template page).text.encode) := by
  cases h with
  | same =>
      have hpage := isPageOf_of_build hchanges.build hchanges.name
      have hmerge : merge template { page with source := [] } = merge template page := rfl
      obtain ⟨-, hup⟩ := hpage.again htemplate hplain (hfit _ _ rfl hpage)
      have hcarried : Carried template templateName (some bytes) _ := .merged hpage
      rw [hmerge] at hup hcarried
      exact ⟨hcarried, _, rfl, hup⟩
  | merged hpage =>
      obtain ⟨-, hup⟩ := hpage.again htemplate hplain (hfit _ _ rfl hpage)
      exact absurd hup hchanges.not_upToDate

end Plain

/-- At a file that is read, and written if it is to be, it is up to date or gets merged. -/
theorem Course.settles (hs : job.storage.OverDisk) (hw : s.world.IsSound)
    (hcautious : Cautious run? s) (hpath : path.IsProper)
    (hmode : s.memory.state.mode = .autoApplyAll) {outcome? : Option Outcome}
    (h : Course job template templateName run? path s (.ok outcome?) s')
    (hfaults : ∀ outcome, outcome? = some outcome → outcome.status ≠ .ioFailed) :
    ∃ bytes, s.world.tree.read s.world.here path = .ok bytes ∧
      (s'.world.tree = s.world.tree ∧ UpToDate template templateName (Text.decode bytes) ∨
        ∃ page, Changes template templateName path (Text.decode bytes) page ∧
          s'.world.tree.bytes? (place s.world.here path) = some (merge template page).text.encode) := by
  cases h with
  | unproposed _ script level message h =>
      cases hheld : held job path s with
      | error e =>
          rw [hheld] at h
          cases h
          exact absurd rfl (hfaults _ rfl)
      | ok current =>
          obtain ⟨bytes, hread, rfl⟩ := exists_read hs hheld
          obtain ⟨reads, hreads, hread_mem⟩ := exists_reads hs path s
          refine ⟨bytes, hread, Or.inl ⟨hreads.tree_eq fun event he => hread_mem event he ▸ rfl,
            fun page hpage => ?_⟩⟩
          rw [hheld] at h
          have hbuild := Page.build_of_build hpage.build path.text
          cases h with
          | malformed _ fault h => cases h.symm.trans hbuild
          | foreign _ page' h hname =>
              obtain rfl := Except.ok.inj (hbuild.symm.trans h)
              exact absurd hpage.name hname
          | unchanged _ page' h hname hsame =>
              obtain rfl := Except.ok.inj (hbuild.symm.trans h)
              exact hsame
  | skipped _ _ _ _ _ _ _ hdecide => cases hdecide.eq_apply hmode
  | cancelled _ _ _ _ _ _ _ hdecide => cases hdecide.eq_apply hmode
  | written current page decision s₁ s₂ level message hread h hskip hcancel hdecide hwrite =>
      obtain ⟨bytes, hdisk, rfl⟩ := exists_read hs hread
      rcases leads_approved hs hw hcautious hpath hread h hdecide hwrite with
        ⟨⟨e, he⟩, -⟩ | ⟨-, -, -, -, hbytes, -⟩
      · cases he
      · exact ⟨bytes, hdisk, Or.inr ⟨page, h, hbytes⟩⟩
  | failed => exact absurd rfl (hfaults _ rfl)

/-- Between two standings of a run no file outside its backup root has been changed but by merging it,
and these files have been read and are up to date. -/
structure Settles (template : Template) (templateName : Text) (run? : Option Text)
    (paths : List Path) (s s' : Standing Progress) : Prop where
  contents : ∀ loc held?, ¬ IsBackup run? s loc → IsFit templateName held? →
    Carried template templateName held? (s.world.tree.bytes? loc) →
    Carried template templateName held? (s'.world.tree.bytes? loc) ∧
      (IsSettled template templateName (s.world.tree.bytes? loc) ∨
          (∃ path ∈ paths, place s.world.here path = loc) →
        IsSettled template templateName (s'.world.tree.bytes? loc))
  reached : ∀ path ∈ paths, (∀ loc, OnWay s.world.here path loc → ¬ IsBackup run? s loc) →
    s'.world.tree.locate s.world.here path = .ok (place s.world.here path)

namespace Settles

variable {P Q : Loc → Prop} {paths' : List Path}

theorem of_retains (h : Retains (IsBackup run? s) (fun _ => False) s.world.tree s'.world.tree) :
    Settles template templateName run? [] s s' where
  contents loc held? hloc _ hcarried := by
    rw [h.spares loc fun hor => hor.elim hloc id]
    exact ⟨hcarried, fun hor => hor.elim id fun ⟨_, hpath, _⟩ => absurd hpath List.not_mem_nil⟩
  reached _ hpath := absurd hpath List.not_mem_nil

theorem trans (h : Settles template templateName run? paths s s') (hleads : Leads P run? s s')
    (h' : Settles template templateName run? paths' s' s'')
    (hretains : Retains (IsBackup run? s') Q s'.world.tree s''.world.tree) :
    Settles template templateName run? (paths ++ paths') s s'' where
  contents loc held? hloc hfit hcarried := by
    obtain ⟨hcarried₁, hsettled₁⟩ := h.contents loc held? hloc hfit hcarried
    rw [← hleads.isBackup_eq] at hloc
    obtain ⟨hcarried₂, hsettled₂⟩ := h'.contents loc held? hloc hfit hcarried₁
    rw [hleads.here] at hsettled₂
    refine ⟨hcarried₂, ?_⟩
    rintro (hsettled | ⟨path, hpath, hplace⟩)
    · exact hsettled₂ (Or.inl (hsettled₁ (Or.inl hsettled)))
    · rcases List.mem_append.mp hpath with hpath | hpath
      · exact hsettled₂ (Or.inl (hsettled₁ (Or.inr ⟨path, hpath, hplace⟩)))
      · exact hsettled₂ (Or.inr ⟨path, hpath, hplace⟩)
  reached path hpath hway := by
    rcases List.mem_append.mp hpath with hpath | hpath
    · rw [hleads.isBackup_eq] at hretains
      exact hretains.locate hway (h.reached path hpath hway)
    · have hreached := h'.reached path hpath
      rw [hleads.here, hleads.isBackup_eq] at hreached
      exact hreached hway

/-- A file that has been visited is up to date, and what is to be recorded of it is what was to be
recorded before. -/
theorem isCurrent {file : Bytes} {source : Text}
    (h : Settles template templateName run? paths s s')
    (htemplate : Template.build (Text.decode file) source = .ok template)
    (hplain : Merge.IsPlain (Text.decode file) template) (hpath : path ∈ paths)
    (hway : ∀ loc, OnWay s.world.here path loc → ¬ IsBackup run? s loc)
    (hfit : IsFit templateName (s.world.tree.bytes? (place s.world.here path)))
    (hhere : s'.world.here = s.world.here) (settings : Settings) :
    IsCurrent template templateName s'.world path ∧
      report? settings templateName s'.world path = report? settings templateName s.world path := by
  obtain ⟨hcarried, hsettled⟩ :=
    h.contents _ _ (hway _ (Tree.onWay_place s.world.here path)) hfit (.same _)
  obtain ⟨bytes, hbytes, hup⟩ := hsettled (Or.inr ⟨path, hpath, rfl⟩)
  have hread := Tree.read_eq_ok.mpr ⟨h.reached path hpath hway, Tree.bytes?_eq_some.mp hbytes⟩
  refine ⟨⟨bytes, by rw [hhere, hread], hup⟩, ?_⟩
  rw [report?, report?, hhere, hcarried.upshot? htemplate hplain hfit]

/-- A file that is no page of the template is what it was. -/
theorem read {bytes : Bytes} (h : Settles template templateName run? paths s s')
    (hretains : Retains (IsBackup run? s) P s.world.tree s'.world.tree)
    (hway : ∀ loc, OnWay s.world.here path loc → ¬ IsBackup run? s loc)
    (hnot : ∀ page, ¬ IsPageOf templateName (Text.decode bytes) page)
    (hread : s.world.tree.read s.world.here path = .ok bytes) :
    s'.world.tree.read s.world.here path = .ok bytes := by
  obtain ⟨hlocate, hnode⟩ := Tree.read_eq_ok.mp hread
  have hheld := Tree.bytes?_eq_some.mpr hnode
  have hfit : IsFit templateName (some bytes) := fun held page hsome hpage =>
    absurd (Option.some.inj hsome ▸ hpage) (hnot page)
  obtain ⟨hcarried, -⟩ :=
    h.contents _ _ (hway _ (Tree.onWay_place s.world.here path)) hfit (hheld ▸ .same _)
  refine Tree.read_eq_ok.mpr ⟨hretains.locate hway hlocate, Tree.bytes?_eq_some.mp ?_⟩
  cases hafter : s'.world.tree.bytes? (place s.world.here path) with
  | none =>
      rw [hafter] at hcarried
      cases hcarried
  | some held =>
      rw [hafter] at hcarried
      cases hcarried with
      | same => rfl
      | merged hpage => exact absurd hpage (hnot _)

end Settles

/-- A call at a file that is read, and written if it is to be, settles it. -/
theorem Account.settles {file : Bytes} {source : Text} {v : Visit} (hs : job.storage.OverDisk)
    (htemplate : Template.build (Text.decode file) source = .ok template)
    (hplain : Merge.IsPlain (Text.decode file) template)
    (h : Account job template templateName run? s v) (hw : s.world.IsSound)
    (hcautious : Cautious run? s) (hpath : v.path.IsProper)
    (hmode : s.memory.state.mode = .autoApplyAll) (hresult : ∃ outcome?, v.result = .ok outcome?)
    (hfaults : ∀ outcome, v.outcome? = some outcome → outcome.status ≠ .ioFailed) :
    Settles template templateName run? [v.path] s v.settled := by
  obtain ⟨outcome?, hresult⟩ := hresult
  have hidle : ∀ event ∈ [Event.polled false], event.isIdle = true := by simp [Event.isIdle]
  have hbefore : Leads (fun _ => False) run? s v.before :=
    .of_idle hw hcautious h.polled hidle (by rw [h.memory])
  have htree := h.polled.tree_eq hidle
  obtain ⟨-, hleads⟩ := h.confined hs hw hcautious hpath
  have hcourse := h.course
  rw [Visit.outcome?, hresult] at hfaults
  rw [hresult] at hcourse
  obtain ⟨bytes, hread, hcases⟩ := hcourse.settles hs hbefore.sound hbefore.cautious hpath
    (by rw [h.memory, hmode]) hfaults
  rw [htree, h.polled.here] at hread
  rw [htree, h.polled.here] at hcases
  obtain ⟨hlocate, hnode⟩ := Tree.read_eq_ok.mp hread
  have hheld := Tree.bytes?_eq_some.mpr hnode
  constructor
  case contents =>
    intro loc held? hloc hfit hcarried
    rcases hcases with ⟨hsame, hup⟩ | ⟨page, hchanges, hmerged⟩
    · have hafter : v.settled.world.tree = s.world.tree := hsame
      rw [hafter]
      refine ⟨hcarried, ?_⟩
      rintro (hsettled | ⟨path, hmem, rfl⟩)
      · exact hsettled
      · obtain rfl := List.mem_singleton.mp hmem
        exact ⟨bytes, hheld, hup⟩
    · by_cases hplace : loc = place s.world.here v.path
      · rw [hplace, hheld] at hcarried
        obtain ⟨hcarried', hsettled⟩ := hcarried.merge htemplate hplain hfit hchanges
        have hafter : v.settled.world.tree.bytes? loc = some (merge template page).text.encode := by
          rw [hplace]
          exact hmerged
        rw [hafter]
        exact ⟨hcarried', fun _ => hsettled⟩
      · rw [hleads.retains.spares loc fun h => h.elim hloc fun happlied => hplace happlied.2]
        refine ⟨hcarried, ?_⟩
        rintro (hsettled | ⟨path, hmem, rfl⟩)
        · exact hsettled
        · exact absurd (by rw [List.mem_singleton.mp hmem]) hplace
  case reached =>
    intro path hmem hway
    obtain rfl := List.mem_singleton.mp hmem
    exact hleads.retains.locate hway hlocate

/-- A run that approves everything and fails at no file settles all of them. -/
theorem Tour.settles {file : Bytes} {source : Text} (hfront : job.frontEnd = Sim.scripted)
    (hs : job.storage.OverDisk) (htemplate : Template.build (Text.decode file) source = .ok template)
    (hplain : Merge.IsPlain (Text.decode file) template) (hkeeps : Keeps run? s.memory)
    (hw : s.world.IsSound) (hcautious : Cautious run? s) (hpaths : ∀ path ∈ paths, path.IsProper)
    (hmode : s.memory.state.mode = .autoApplyAll) {result : Except Failure Unit}
    (h : Tour job template templateName run? s paths visits result s') (hresult : result = .ok ())
    (hrunning : s'.memory.state.cancelled = false)
    (hfaults : ∀ v ∈ visits, ∀ outcome, v.outcome? = some outcome → outcome.status ≠ .ioFailed) :
    Settles template templateName run? paths s s' ∧ Leads (fun _ => True) run? s s' := by
  have hgoal : s.world.IsSound → Cautious run? s → (∀ path ∈ paths, path.IsProper) →
      s.memory.state.mode = .autoApplyAll → result = .ok () → s'.memory.state.cancelled = false →
      (∀ v ∈ visits, ∀ outcome, v.outcome? = some outcome → outcome.status ≠ .ioFailed) →
      Settles template templateName run? paths s s' ∧ Leads (fun _ => True) run? s s' := by
    refine Tour.rec_account hfront hs ?_ ?_ ?_ ?_ ?_ h hkeeps
    · intro s hw hcautious _ _ _ _ _
      exact ⟨.of_retains (.refl _), .of_idle hw hcautious (Trail.refl _) (by simp) rfl⟩
    · intro path paths s hcancelled _ _ _ _ _ hrunning _
      cases hcancelled.symm.trans hrunning
    · intro path paths s w _ _ _ _ _ _ _ hrunning _
      cases hrunning
    · intro paths s v haccount hends _ _ _ _ hresult hrunning _
      cases (haccount.cancelled_of_ends hends hresult).symm.trans hrunning
    · intro paths s v visits result s' haccount hgoes ih hw hcautious hpaths hmode hresult hrunning
        hfaults
      obtain ⟨hpath, hpaths⟩ := List.forall_mem_cons.mp hpaths
      obtain ⟨hfault, hfaults⟩ := List.forall_mem_cons.mp hfaults
      obtain ⟨outcome?, hvisit, -⟩ := hgoes
      obtain ⟨-, hleads⟩ := haccount.confined hs hw hcautious hpath
      have hsettles := haccount.settles hs htemplate hplain hw hcautious hpath hmode
        ⟨outcome?, hvisit⟩ hfault
      have hmode' : v.settled.memory.state.mode = .autoApplyAll :=
        haccount.approved_iff.1.mpr (Or.inl hmode)
      obtain ⟨hsettles', hleads'⟩ :=
        ih hleads.sound hleads.cautious hpaths hmode' hresult hrunning hfaults
      exact ⟨hsettles.trans hleads hsettles' hleads'.retains,
        (hleads.mono fun _ _ => trivial).trans hleads'⟩
  exact hgoal hw hcautious hpaths hmode hresult hrunning hfaults

/-- A text without the markers of pages is no page. -/
theorem not_isPageOf (h : Merge.IsPlain text template) : ¬ IsPageOf templateName text page :=
  fun hpage => by
  have hbinding := Page.firstBinding?_of_bindingOf (Page.bindingOf_of_build hpage.build)
  have hkind : page.binding.kind = .binding := by
    rw [Marker.firstBinding?] at hbinding
    simpa using List.find?_some hbinding
  refine h.lacks _ (List.mem_of_find?_eq_some hbinding) ?_
  rw [hkind]
  decide

/-! ## The beginning and the end of a run -/

theorem Opening.cautious_of_idle {state : RunState} {w w₁ : World}
    (h : Opening job templateName state w₁ run? s) (hidle : Idle w w₁)
    (hlast : job.settings.backupsEnabled = true →
      Backups.LastKnown IsName job.settings.backupRoot w.here w.tree) : Cautious run? s := by
  obtain ⟨events, htrail, hevents⟩ := hidle
  intro run hrun
  have hknown := hlast (h.memory.2.2.2.2 (hrun ▸ rfl))
  rw [← htrail.here, ← htrail.tree_eq hevents] at hknown
  exact (h.cautious hknown).1 run hrun

/-- A path that keeps apart from the backups that a run is to make keeps apart from those it makes. -/
theorem Opening.not_isBackup {state : RunState} {w w₁ : World} {loc : Loc}
    (h : Opening job templateName state w₁ run? s) (hhere : s.world.here = w.here)
    (hapart : job.settings.backupsEnabled = true →
      ¬ place w.here job.settings.backupRoot <+: loc) : ¬ IsBackup run? s loc := by
  obtain ⟨-, -, hroot, -, henabled⟩ := h.memory
  rintro ⟨hsome, hbackup⟩
  rw [hhere, hroot] at hbackup
  exact hapart (henabled hsome) hbackup

/-- After its last file a run changes nothing outside its backup root. -/
theorem Conclusion.retains {s₁ s₂ s₃ : Standing Progress} {visited : Except Failure Unit}
    {closed : Except Failure (Option Path)} {summary : RunSummary}
    (h : Conclusion templateName s₂ visited closed (.ok summary) s₃)
    (hclose : play (close run?) s₁ = (closed, s₂)) (hkeeps : Keeps run? s₁.memory)
    (hw : s₁.world.IsSound) (hcautious : Cautious run? s₁) :
    Retains (IsBackup run? s₁) (fun _ => False) s₁.world.tree s₃.world.tree ∧
      s₃.world.here = s₁.world.here := by
  obtain ⟨closing, hclosing, -⟩ := close_trail hkeeps
  obtain ⟨-, ⟨ending, hending, hlogs⟩, -⟩ := h.cases
  have hretains := retains_close hkeeps hw hcautious
  rw [hclose] at hclosing hretains
  rw [← hending.tree_eq fun event he => Event.isIdle_of_isLog (hlogs event he)] at hretains
  exact ⟨hretains, hending.here.trans hclosing.here⟩

/-- The summary tells what the run has come to. -/
theorem Conclusion.summary_eq {s₁ s₂ s₃ : Standing Progress} {visited : Except Failure Unit}
    {closed : Except Failure (Option Path)} {summary : RunSummary}
    (h : Conclusion templateName s₂ visited closed (.ok summary) s₃)
    (hclose : play (close run?) s₁ = (closed, s₂)) (hkeeps : Keeps run? s₁.memory) :
    visited = .ok () ∧ summary.outcomes = s₁.memory.outcomes ∧
      summary.cancelled = s₁.memory.state.cancelled := by
  obtain ⟨closing, -, -, hstate, houtcomes, -⟩ := close_trail hkeeps
  obtain ⟨-, -, hsummary, -⟩ := h.cases
  obtain ⟨hvisited, houtcomes₂, hcancelled⟩ := hsummary summary rfl
  rw [hclose] at hstate houtcomes
  exact ⟨hvisited, houtcomes₂.trans houtcomes, by rw [hcancelled, hstate]⟩

/-- After a run that approves everything and fails at no file, the template is the same, the files are
up to date, and what would be recorded of them is the same. -/
theorem run_settles (hfront : job.frontEnd = Sim.scripted) (hdisk : job.storage = Storage.disk)
    {templatePath : Path} {state final : RunState} {w w' : World} {summary : RunSummary}
    (hw : w.IsSound) (hpaths : ∀ path ∈ paths, path.IsProper)
    (hlast : job.settings.backupsEnabled = true →
      Backups.LastKnown IsName job.settings.backupRoot w.here w.tree)
    (hapart : job.settings.backupsEnabled = true → ∀ path ∈ templatePath :: paths,
      ∀ loc, OnWay w.here path loc → ¬ place w.here job.settings.backupRoot <+: loc)
    (htemplate : ((loadTemplate job.storage templatePath).run.run w).1 = .ok template)
    (hplain : Merge.IsPlain template.text template)
    (hfit : ∀ path ∈ paths, IsFit templatePath.name (w.tree.bytes? (place w.here path)))
    (hmode : state.mode = .autoApplyAll)
    (hrun : (run job templatePath paths state).run w = ((.ok summary, final), w'))
    (hrunning : summary.cancelled = false)
    (hfaults : ∀ outcome ∈ summary.outcomes, outcome.status ≠ .ioFailed) :
    w'.here = w.here ∧ ((loadTemplate job.storage templatePath).run.run w').1 = .ok template ∧
      ∀ path ∈ paths, IsCurrent template templatePath.name w' path ∧
        report? job.settings templatePath.name w' path =
          report? job.settings templatePath.name w path := by
  have hs : job.storage.OverDisk := hdisk ▸ Storage.overDisk_disk
  obtain ⟨file, hfile, hbuild⟩ := (loadTemplate_eq_ok hdisk).mp htemplate
  rw [Template.text_of_build hbuild] at hplain
  obtain ⟨run?, w₁, s₀, visits, visited, s₁, closed, s₂, s₃, hloaded, ⟨events, hbegun, hidle⟩,
    hopening, htour, hclose, hconclusion, rfl⟩ := exists_parts hs htemplate hrun
  obtain ⟨hstate, houtcomes, -, hkeeps, -⟩ := hopening.memory
  have htree₀ := hbegun.tree_eq hidle
  have hw₀ : s₀.world.IsSound := ⟨htree₀ ▸ hw.tree, by rw [hbegun.here]; exact hw.here⟩
  have hway : ∀ path ∈ templatePath :: paths,
      ∀ loc, OnWay s₀.world.here path loc → ¬ IsBackup run? s₀ loc := fun path hpath loc hloc =>
    hopening.not_isBackup hbegun.here fun henabled =>
      hapart henabled path hpath loc (hbegun.here ▸ hloc)
  -- all files are visited
  have hkeeps₁ := (htour.keeps hfront hs hkeeps).1
  obtain ⟨rfl, houtcomes₁, hcancelled⟩ := hconclusion.summary_eq hclose hkeeps₁
  rw [hcancelled] at hrunning
  rw [houtcomes₁, htour.outcomes hfront hs hkeeps, houtcomes, List.nil_append] at hfaults
  obtain ⟨hsettles, hleads⟩ := htour.settles hfront hs hbuild hplain hkeeps hw₀
    (hopening.cautious_of_idle hloaded hlast) hpaths (by rw [hstate, hmode]) rfl hrunning
    fun v hv outcome houtcome => hfaults outcome (List.mem_filterMap.mpr ⟨v, hv, houtcome⟩)
  -- and the end of the run leaves them alone
  obtain ⟨hretains, hhere₃⟩ :=
    hconclusion.retains hclose hkeeps₁ hleads.sound hleads.cautious
  have hhere : s₃.world.here = s₀.world.here := hhere₃.trans hleads.here
  have hall : Settles template templatePath.name run? paths s₀ s₃ := by
    rw [← List.append_nil paths]
    exact hsettles.trans hleads (.of_retains hretains) hretains
  rw [hleads.isBackup_eq] at hretains
  have hwhole := hleads.retains.trans (hretains.mono (fun _ => id) fun _ => False.elim)
  rw [← htree₀, ← hbegun.here] at hfit hfile
  refine ⟨hhere.trans hbegun.here, (loadTemplate_eq_ok hdisk).mpr ⟨file, ?_, hbuild⟩,
    fun path hpath => ?_⟩
  · rw [hhere]
    exact hall.read hwhole (hway _ List.mem_cons_self) (fun _ => not_isPageOf hplain) hfile
  · rw [← report?_of_tree job.settings templatePath.name htree₀ hbegun.here]
    exact hall.isCurrent hbuild hplain hpath (hway path (List.mem_cons_of_mem _ hpath))
      (hfit path hpath) hhere job.settings

/-! ## Two runs -/

/-- After a run that approves everything and fails at no file, running again over the same files does
nothing to the disk. -/
theorem second_run_idle (hfront : job.frontEnd = Sim.scripted) (hdisk : job.storage = Storage.disk)
    {templatePath : Path} {state final state₂ final₂ : RunState} {w w₁ w₂ w₃ : World}
    {summary : RunSummary} {result : Except Failure RunSummary} (hw : w.IsSound)
    (hpaths : ∀ path ∈ paths, path.IsProper)
    (hlast : job.settings.backupsEnabled = true →
      Backups.LastKnown IsName job.settings.backupRoot w.here w.tree)
    (hapart : job.settings.backupsEnabled = true → ∀ path ∈ templatePath :: paths,
      ∀ loc, OnWay w.here path loc → ¬ place w.here job.settings.backupRoot <+: loc)
    (htemplate : ((loadTemplate job.storage templatePath).run.run w).1 = .ok template)
    (hplain : Merge.IsPlain template.text template)
    (hfit : ∀ path ∈ paths, IsFit templatePath.name (w.tree.bytes? (place w.here path)))
    (hmode : state.mode = .autoApplyAll)
    (hrun : (run job templatePath paths state).run w = ((.ok summary, final), w₁))
    (hrunning : summary.cancelled = false)
    (hfaults : ∀ outcome ∈ summary.outcomes, outcome.status ≠ .ioFailed)
    (htree : w₂.tree = w₁.tree) (hhere : w₂.here = w₁.here)
    (hagain : (run job templatePath paths state₂).run w₂ = ((result, final₂), w₃)) :
    Idle w₂ w₃ ∧ w₃.tree = w₁.tree ∧ ∃ summary₂, result = .ok summary₂ ∧ summary₂.manifest? = none ∧
      (summary₂.cancelled = false →
        summary₂.outcomes.map (fun outcome => (outcome.path, outcome.status)) =
          paths.filterMap (report? job.settings templatePath.name w)) := by
  obtain ⟨-, htemplate₁, hfiles⟩ := run_settles hfront hdisk hw hpaths hlast hapart htemplate hplain
    hfit hmode hrun hrunning hfaults
  have htemplate₂ : ((loadTemplate job.storage templatePath).run.run w₂).1 = .ok template := by
    rw [loadTemplate_eq_ok hdisk] at htemplate₁ ⊢
    rwa [htree, hhere]
  obtain ⟨⟨events, htrail, hidle⟩, summary₂, hresult, hmanifest, houtcomes⟩ :=
    run_rests hfront hdisk htemplate₂
      (fun path hpath => (hfiles path hpath).1.of_tree htree hhere) hagain
  refine ⟨⟨events, htrail, hidle⟩, (htrail.tree_eq hidle).trans htree, summary₂, hresult, hmanifest,
    fun hrunning₂ => (houtcomes hrunning₂).trans ?_⟩
  rw [report?_of_tree _ _ htree hhere]
  exact List.filterMap_congr fun path hpath => (hfiles path hpath).2

end Run

/-! ## A site with a backup -/

namespace Run.TwoRuns

def template : Text := Text.concat ["<html><body><!-- TemplateBeginEditable name=\"r\" -->new",
  "<!-- TemplateEndEditable --></body></html>"]

/-- A page of the template, with a byte that stands for no character. -/
def page : Bytes :=
  Text.encode (Text.concat ["<html><!-- InstanceBegin template=\"/t.dwt\" -->",
    "<!-- InstanceBeginEditable name=\"r\" -->caf"]) ++ 0xe9 ::
  Text.encode "<!-- InstanceEndEditable --></html>"

/-- A page of another template. -/
def foreign : Text :=
  Text.concat ["<html><!-- InstanceBegin template=\"/u.dwt\" --></html>"]

def previousRun : Text := Moment.runName ⟨1735603200, 0⟩ 1

/-- What an earlier run has backed up. -/
def previous : Manifest :=
  ⟨"t.dwt", previousRun, "2024-12-31T00:00:00+00:00", Text.concat ["/s/b/", previousRun],
    [⟨"/s/a.html", Text.concat ["/s/b/", previousRun, "/a.html"]⟩]⟩

def manifest : Bytes := (Json.writeBytes? previous.toJson).getD []

def file (name : Text) : Path := ⟨.slash, ["s", name]⟩

def backupCopy : Path := ⟨.slash, ["s", "b", previousRun, "a.html"]⟩

def world : World :=
  World.make ⟨[(["s"], .dir), (["s", "t.dwt"], .file template.encode),
    (["s", "a.html"], .file page), (["s", "u.html"], .file foreign.encode), (["s", "d"], .dir),
    (["s", "b"], .dir), (["s", "b", "last_backup.json"], .file manifest), (["s", "b", previousRun], .dir),
    (["s", "b", previousRun, "a.html"], .file page)]⟩ [] "1"

def job : Job Sim :=
  ⟨{ Settings.default ⟨.slash, ["s"]⟩ with backupDirName := "b" }, Sim.scripted, Storage.disk⟩

/-- Running over the files of a world. -/
def after (paths : List Path) (w : World) : (Except Failure RunSummary × RunState) × World :=
  (run job (file "t.dwt") paths ⟨.autoApplyAll, false⟩).run w

def statuses : Except Failure RunSummary → List FileStatus
  | .ok summary => summary.outcomes.map (·.status)
  | .error _ => []

/-- The second visit of a page goes a long way round. -/
def files : List Path := [file "a.html", file "u.html", ⟨.slash, ["s", "d", "..", "a.html"]⟩]

theorem isSound_world : world.IsSound :=
  ⟨Tree.wellFormed_of_nodes (by decide +kernel), fun part hpart => by cases hpart⟩

theorem lastKnown_world :
    Backups.LastKnown IsName job.settings.backupRoot world.here world.tree := by
  refine Backups.lastKnown_of_written fun bytes hbytes => ?_
  have hlast : world.tree.bytes? (place world.here (Backups.lastPath job.settings.backupRoot)) =
      some manifest := by decide +kernel
  have hwritten : Json.writeBytes? previous.toJson = some manifest := by decide +kernel
  obtain rfl := Option.some.inj (hlast.symm.trans hbytes)
  exact ⟨previous, hwritten, Moment.isName_runName _ _⟩

theorem exists_template : ∃ read, ((loadTemplate job.storage (file "t.dwt")).run.run world).1 = .ok read ∧
    Merge.IsPlain read.text read := by
  have hread : (match ((loadTemplate job.storage (file "t.dwt")).run.run world).1 with
      | .ok read => decide (Merge.IsPlain read.text read)
      | .error _ => false) = true := by decide +kernel
  split at hread
  · next read hok => exact ⟨read, hok, of_decide_eq_true hread⟩
  · cases hread

/-- The run has gone over all files and has failed at none. -/
def isCalm : Except Failure RunSummary → Bool
  | .ok summary => !summary.cancelled && summary.outcomes.all fun o => o.status ≠ .ioFailed
  | .error _ => false

theorem second_run_idle_files : statuses (after files world).1.1 = [.applied, .skippedNoChange] ∧
    Idle (after files world).2 (after files (after files world).2).2 ∧
    (after files (after files world).2).2.tree = (after files world).2.tree ∧
    statuses (after files (after files world).2).1.1 = [.skippedNoChange, .skippedNoChange] := by
  have hruns : isCalm (after files world).1.1 = true ∧
      statuses (after files world).1.1 = [.applied, .skippedNoChange] ∧
      statuses (after files (after files world).2).1.1 = [.skippedNoChange, .skippedNoChange] := by
    rw [after, after, files, job, Settings.default, world, template, page, foreign]
    repeat rw [Text.ofString_ofList]
    decide +kernel
  have hinits : ∀ path ∈ file "t.dwt" :: files, ∀ q ∈ path.parts.inits,
      ¬ place world.here job.settings.backupRoot <+: Path.collapse (Tree.start world.here path) q := by
    decide +kernel
  have hapart : ∀ path ∈ file "t.dwt" :: files, ∀ loc, OnWay world.here path loc →
      ¬ place world.here job.settings.backupRoot <+: loc := by
    rintro path hpath loc ⟨q, hq, rfl⟩
    exact hinits path hpath q ((List.mem_inits _ _).mpr hq)
  have hfit : ∀ path ∈ files, IsFit "t.dwt" (world.tree.bytes? (place world.here path)) := by
    rw [files, world, template, page, foreign]
    repeat rw [Text.ofString_ofList]
    decide +kernel
  obtain ⟨read, hread, hplain⟩ := exists_template
  obtain ⟨hcalm, hstatuses, hstatuses₂⟩ := hruns
  refine ⟨hstatuses, ?_⟩
  rcases hfirst : after files world with ⟨⟨result, final⟩, w₁⟩
  rw [hfirst] at hcalm hstatuses₂
  cases result with
  | error e => cases hcalm
  | ok summary =>
      simp only [isCalm, Bool.and_eq_true, Bool.not_eq_true', List.all_eq_true,
        decide_eq_true_eq] at hcalm
      obtain ⟨hidle, htree, -⟩ := second_run_idle rfl rfl isSound_world (by decide)
        (fun _ => lastKnown_world) (fun _ => hapart) hread hplain hfit rfl hfirst hcalm.1 hcalm.2
        rfl rfl (Eq.refl (after files w₁))
      exact ⟨hidle, htree, hstatuses₂⟩

/-- A backup copy is a page of the template, too, but the end of the next run removes it. -/
theorem ioFailed_second_run : world.IsSound ∧
    Backups.LastKnown IsName job.settings.backupRoot world.here world.tree ∧
    (∃ read, ((loadTemplate job.storage (file "t.dwt")).run.run world).1 = .ok read ∧
      Merge.IsPlain read.text read) ∧
    (∀ path ∈ [file "a.html", backupCopy], path.IsProper ∧
      world.tree.read world.here path = .ok page) ∧
    (∃ read, IsPageOf "t.dwt" (Text.decode page) read ∧ Merge.IsBoundAround read) ∧
    isCalm (after [file "a.html", backupCopy] world).1.1 = true ∧
    statuses (after [file "a.html", backupCopy]
      (after [file "a.html", backupCopy] world).2).1.1 = [.skippedNoChange, .ioFailed] := by
  have hpasses : passes template (Text.decode page) (fun _ read =>
      decide (read.templateName = "t.dwt" ∧ Merge.IsBoundAround read)) = true := by
    rw [template, page]
    repeat rw [Text.ofString_ofList]
    decide +kernel
  obtain ⟨-, read, -, hbuild, htest⟩ := exists_of_passes hpasses
  obtain ⟨hname, hbound⟩ := of_decide_eq_true htest
  refine ⟨isSound_world, lastKnown_world, exists_template, by decide +kernel,
    ⟨read, ⟨hbuild, hname⟩, hbound⟩, ?_⟩
  rw [after, after, job, Settings.default, world, template, page, foreign]
  repeat rw [Text.ofString_ofList]
  decide +kernel

end Run.TwoRuns

end Stencil
