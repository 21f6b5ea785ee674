import Stencil.Proofs.Run.Answers
import Stencil.Proofs.Run.Whole
import Stencil.Proofs.Run.Writing

/-!
# What a run changes

Outside the backup root only pages that end applied are changed, each by having its merged text written
over it (`run_confined`).
-/

namespace Stencil

open Stencil.Path (IsName)
open Stencil.Tree (Retains Spares place)

namespace Run

variable {job : Job Sim} {template : Template} {templateName : Text} {run? : Option Text}
  {paths : List Path} {s s' : Standing Progress} {visits : List Visit}

/-! ## All visits -/

/-- The disks before and after the visits follow on one another. -/
inductive Follows : Tree → List Visit → Tree → Prop
  | nil (t : Tree) : Follows t [] t
  | cons {v : Visit} {visits : List Visit} {t : Tree} (h : Follows v.after.world.tree visits t) :
      Follows v.before.world.tree (v :: visits) t

/-- A call changes nothing outside the backup root but a page that ends applied. -/
theorem Account.confined {v : Visit} (hs : job.storage.OverDisk)
    (h : Account job template templateName run? s v) (hw : s.world.IsSound)
    (hcautious : Cautious run? s) (hpath : v.path.IsProper) :
    Confined job template templateName run? v ∧
      Leads (fun loc => v.IsApplied ∧ loc = place s.world.here v.path) run? s v.settled := by
  have hidle : ∀ event ∈ [Event.polled false], event.isIdle = true := by simp [Event.isIdle]
  have hbefore : ∀ P : Loc → Prop, Leads P run? s v.before :=
    fun P => .of_idle hw hcautious h.polled hidle (by rw [h.memory])
  obtain ⟨hconfined, hleads⟩ := h.course.confined hs (hbefore fun _ => False).sound
    (hbefore fun _ => False).cautious hpath
  have hsettled : ∀ P : Loc → Prop, Leads P run? v.after v.settled :=
    fun P => .of_idle hleads.sound hleads.cautious (Trail.refl _) (by simp) rfl
  rw [h.polled.here] at hleads
  exact ⟨hconfined, ((hbefore _).trans hleads).trans (hsettled _)⟩

/-- A run over files changes nothing outside the backup root but the pages that end applied. -/
theorem Tour.confined {result : Except Failure Unit} (hfront : job.frontEnd = Sim.scripted)
    (hs : job.storage.OverDisk) (hkeeps : Keeps run? s.memory) (hw : s.world.IsSound)
    (hcautious : Cautious run? s) (hpaths : ∀ path ∈ paths, path.IsProper)
    (h : Tour job template templateName run? s paths visits result s') :
    (∀ v ∈ visits, Confined job template templateName run? v ∧
        v.before.world.here = s.world.here ∧
        v.before.memory.backups.root = s.memory.backups.root) ∧
      Follows s.world.tree visits s'.world.tree ∧
      Leads (fun loc => ∃ v ∈ visits, v.IsApplied ∧ loc = place s.world.here v.path) run? s s' := by
  have hcall : ∀ s v, Account job template templateName run? s v → s.world.IsSound →
      Cautious run? s → v.path.IsProper →
      Confined job template templateName run? v ∧ v.before.world.here = s.world.here ∧
        v.before.memory.backups.root = s.memory.backups.root ∧
        v.before.world.tree = s.world.tree ∧
        Leads (fun loc => v.IsApplied ∧ loc = place s.world.here v.path) run? s v.settled := by
    intro s v haccount hw hcautious hpath
    obtain ⟨hconfined, hleads⟩ := haccount.confined hs hw hcautious hpath
    exact ⟨hconfined, haccount.polled.here, by rw [haccount.memory],
      haccount.polled.tree_eq (by simp [Event.isIdle]), hleads⟩
  have hgoal : s.world.IsSound → Cautious run? s → (∀ path ∈ paths, path.IsProper) →
      (∀ v ∈ visits, Confined job template templateName run? v ∧
        v.before.world.here = s.world.here ∧
        v.before.memory.backups.root = s.memory.backups.root) ∧
      Follows s.world.tree visits s'.world.tree ∧
      Leads (fun loc => ∃ v ∈ visits, v.IsApplied ∧ loc = place s.world.here v.path)
        run? s s' := by
    refine Tour.rec_account hfront hs ?_ ?_ ?_ ?_ ?_ h hkeeps
    · intro s hw hcautious _
      exact ⟨by simp, .nil _, .of_idle hw hcautious (Trail.refl _) (by simp) rfl⟩
    · intro path paths s _ hw hcautious _
      exact ⟨by simp, .nil _, .of_idle hw hcautious (Trail.refl _) (by simp) rfl⟩
    · intro path paths s w _ htrail hw hcautious _
      have hidle : ∀ event ∈ [Event.polled true], event.isIdle = true := by simp [Event.isIdle]
      refine ⟨by simp, ?_, .of_idle hw hcautious htrail hidle rfl⟩
      rw [stopping, htrail.tree_eq hidle]
      exact .nil _
    · intro paths s v haccount _ hw hcautious hpaths
      obtain ⟨hconfined, hhere, hroot, htree, hleads⟩ :=
        hcall s v haccount hw hcautious (hpaths _ List.mem_cons_self)
      refine ⟨?_, htree ▸ .cons (.nil _), hleads.mono fun loc hloc => ⟨v, List.mem_cons_self, hloc⟩⟩
      exact List.forall_mem_singleton.mpr ⟨hconfined, hhere, hroot⟩
    · intro paths s v visits result s' haccount _ ih hw hcautious hpaths
      obtain ⟨hconfined, hhere, hroot, htree, hleads⟩ :=
        hcall s v haccount hw hcautious (hpaths _ List.mem_cons_self)
      obtain ⟨hvisits, hfollows, hleads'⟩ := ih hleads.sound hleads.cautious
        fun path hpath => hpaths path (List.mem_cons_of_mem _ hpath)
      rw [hleads.here, hleads.root] at hvisits
      rw [hleads.here] at hleads'
      refine ⟨List.forall_mem_cons.mpr ⟨⟨hconfined, hhere, hroot⟩, hvisits⟩,
        htree ▸ .cons hfollows, (hleads.mono ?_).trans (hleads'.mono ?_)⟩
      · exact fun loc hloc => ⟨v, List.mem_cons_self, hloc⟩
      · exact fun loc hloc => hloc.imp fun u hu => ⟨List.mem_cons_of_mem _ hu.1, hu.2⟩
  exact hgoal hw hcautious hpaths

/-! ## Whole runs -/

/-- What a run that made these visits has changed of the disk. -/
structure Confinement (job : Job Sim) (templatePath : Path) (paths : List Path) (state : RunState)
    (template : Template) (run? : Option Text) (visits : List Visit) (w w' : World)
    (result : Except Failure RunSummary) : Prop where
  /-- The files visited are the first ones, one after another from where the run begins, and the
  outcomes told are theirs. -/
  order : visits.map (·.path) <+: paths
  tour : ∃ w₁ s₀ visited s₁, Opening job templatePath.name state w₁ run? s₀ ∧
    Tour job template templatePath.name run? s₀ paths visits visited s₁
  outcomes : ∀ summary, result = .ok summary → summary.outcomes = visits.filterMap Visit.outcome?
  backups : run?.isSome = job.settings.backupsEnabled
  here : ∀ v ∈ visits, v.before.world.here = w.here
  root : ∀ v ∈ visits, v.before.memory.backups.root = job.settings.backupRoot
  /-- The visits lead from the disk before to the disk after, but for files in the backup root. -/
  replay : ∃ t, Follows w.tree visits t ∧
    ∀ loc, ¬ place w.here job.settings.backupRoot <+: loc → w'.tree.bytes? loc = t.bytes? loc
  confined : ∀ v ∈ visits, Confined job template templatePath.name run? v
  /-- So only files that end applied are changed outside the backup root. -/
  changed : ∀ loc, ¬ place w.here job.settings.backupRoot <+: loc →
    w'.tree.bytes? loc ≠ w.tree.bytes? loc →
    ∃ v ∈ visits, v.IsApplied ∧ loc = place w.here v.path

theorem Opening.cautious {state : RunState} {w : World}
    (h : Opening job templateName state w run? s)
    (hlast : Backups.LastKnown IsName job.settings.backupRoot w.here w.tree) :
    Cautious run? s ∧ run?.isSome = job.settings.backupsEnabled := by
  cases h with
  | plain h => exact ⟨fun run hrun => (by cases hrun), h.symm⟩
  | backed h =>
      refine ⟨fun run hrun => ?_, h.symm⟩
      obtain rfl := Option.some.inj hrun
      refine ⟨World.now.isName_runName _, World.now.runName_ne_lastFileName _, ?_, fun _ => hlast,
        fun dir hdir => by cases hdir⟩
      exact ⟨_, Backups.lookup_setRun _ _ _, rfl, fun hne => absurd rfl hne⟩

/-- Ending the backups changes nothing outside the backup root. -/
theorem retains_close (hkeeps : Keeps run? s.memory) (hw : s.world.IsSound)
    (hcautious : Cautious run? s) :
    Retains (IsBackup run? s) (fun _ => False) s.world.tree (play (close run?) s).2.world.tree := by
  rcases close_cases hkeeps with ⟨backups, hplay, -⟩ | ⟨run, manifest, rfl, -, -, -, hplay⟩
  · rw [hplay]
    exact .refl _
  · obtain ⟨hname, -, hcareful⟩ := hcautious run rfl
    obtain ⟨events, htrail, hwithin⟩ := Backups.finalize_frame (fun _ h => h) hname hcareful
    rw [hplay]
    exact (htrail.retains hw hwithin).mono (fun _ hloc => ⟨rfl, hloc⟩) fun _ => id

theorem spares_close (hkeeps : Keeps run? s.memory) (hw : s.world.IsSound)
    (hcautious : Cautious run? s) :
    Spares (place s.world.here s.memory.backups.root <+: ·) s.world.tree
      (play (close run?) s).2.world.tree :=
  (retains_close hkeeps hw hcautious).spares.mono fun _ hloc => hloc.elim And.right False.elim

/-- Outside the backup root a run changes only pages that end applied, and these are replaced by their
merged text behind a snapshot. -/
theorem run_confined {settings : Settings} {storage : Storage Sim} (hs : storage.OverDisk)
    {templatePath : Path} {paths : List Path} {state final : RunState} {w w' : World}
    {result : Except Failure RunSummary} (hw : w.IsSound) (hpaths : ∀ path ∈ paths, path.IsProper)
    (hlast : ∀ bytes, w.tree.bytes? (place w.here (Backups.lastPath settings.backupRoot)) =
      some bytes → ∃ (manifest : Manifest) (moment : Moment) (number : Nat),
        Json.writeBytes? manifest.toJson = some bytes ∧ manifest.runId = moment.runName number)
    (hrun : (run ⟨settings, Sim.scripted, storage⟩ templatePath paths state).run w =
      ((result, final), w')) :
    (∃ e, ((loadTemplate storage templatePath).run.run w).1 = .error e ∧ result = .error e ∧
        w'.tree = w.tree) ∨
      ∃ template run? visits, ((loadTemplate storage templatePath).run.run w).1 = .ok template ∧
        Confinement ⟨settings, Sim.scripted, storage⟩ templatePath paths state template run? visits
          w w' result := by
  have hfront : (Job.mk settings Sim.scripted storage).frontEnd = Sim.scripted := rfl
  have hknown : Backups.LastKnown IsName settings.backupRoot w.here w.tree := by
    refine Backups.lastKnown_of_written fun bytes hbytes => ?_
    obtain ⟨manifest, moment, number, hwritten, hid⟩ := hlast bytes hbytes
    exact ⟨manifest, hwritten, hid ▸ moment.isName_runName number⟩
  obtain ⟨loading, hloading, hreads⟩ := loadTemplate_trail hs templatePath w
  have hloadIdle : ∀ event ∈ loading, event.isIdle = true :=
    fun event he => hreads event he ▸ rfl
  rcases run_cases ⟨settings, Sim.scripted, storage⟩ templatePath paths state w with
    ⟨e, w₁, hload, hrun'⟩ | ⟨template, w₁, run?, s₀, visits, visited, s₁, closed, s₂, result', s₃,
      hload, hopening, htour, hclose, hconclusion, hrun'⟩
  · rw [hload] at hloading
    rw [hrun] at hrun'
    obtain ⟨hresult, rfl⟩ := Prod.mk.inj hrun'
    obtain ⟨rfl, rfl⟩ := Prod.mk.inj hresult
    exact Or.inl ⟨e, by rw [hload], rfl, hloading.tree_eq hloadIdle⟩
  · rw [hload] at hloading
    rw [hrun] at hrun'
    obtain ⟨hresult, rfl⟩ := Prod.mk.inj hrun'
    obtain ⟨rfl, rfl⟩ := Prod.mk.inj hresult
    obtain ⟨opening, hopeningTrail, hlogs⟩ := hopening.trail
    obtain ⟨-, houtcomes, hroot, hkeeps, -⟩ := hopening.memory
    have htree₁ := hloading.tree_eq hloadIdle
    have htree₀ := hopeningTrail.tree_eq fun event he => Event.isIdle_of_isLog (hlogs event he)
    rw [htree₁] at htree₀
    have hhere₀ := hopeningTrail.here.trans hloading.here
    rw [← hloading.here, ← htree₁] at hknown
    obtain ⟨hcautious, hbackups⟩ := hopening.cautious hknown
    have hw₀ : s₀.world.IsSound := ⟨htree₀ ▸ hw.tree, by rw [hhere₀]; exact hw.here⟩
    obtain ⟨hvisits, hfollows, hleads⟩ := htour.confined hfront hs hkeeps hw₀ hcautious hpaths
    obtain ⟨hkeeps₁, -⟩ := htour.keeps hfront hs hkeeps
    have hclosing := spares_close hkeeps₁ hleads.sound hleads.cautious
    obtain ⟨ending, hending, -, -, houtcomes₂, -⟩ := close_trail hkeeps₁
    obtain ⟨-, ⟨last, hlastTrail, hlastLogs⟩, hsummary, -⟩ := hconclusion.cases
    rw [hclose] at hclosing houtcomes₂
    rw [hleads.here, hleads.root, hhere₀, hroot,
      ← hlastTrail.tree_eq fun event he => Event.isIdle_of_isLog (hlastLogs event he)] at hclosing
    have hspares := hleads.spares
    rw [htree₀] at hfollows hspares
    rw [hhere₀, hroot] at hvisits hspares
    refine Or.inr ⟨template, run?, visits, by rw [hload], ?_⟩
    constructor
    case order => exact htour.isPrefix
    case tour => exact ⟨w₁, s₀, visited, s₁, hopening, htour⟩
    case outcomes =>
      intro summary hresult
      obtain ⟨rfl, hsummaryOutcomes, -⟩ := hsummary summary hresult
      rw [hsummaryOutcomes, houtcomes₂, htour.outcomes hfront hs hkeeps, houtcomes, List.nil_append]
    case backups => exact hbackups
    case here => exact fun v hv => (hvisits v hv).2.1
    case root => exact fun v hv => (hvisits v hv).2.2
    case replay => exact ⟨_, hfollows, hclosing⟩
    case confined => exact fun v hv => (hvisits v hv).1
    case changed =>
      intro loc hloc hne
      by_contra hnot
      refine hne ((hclosing loc hloc).trans (hspares loc fun h => h.elim hloc fun happlied => ?_))
      exact hnot happlied

end Run

/-! ## A manifest that is a page

The last manifest tells the names of files, and such names can make it a page. A run that visits it
then backs it up and so writes its own manifest there, before it fails to write the page. -/

namespace Run.ManifestAsPage

def template : Text := Text.concat ["<html><body><!-- TemplateBeginEditable name=\"r\" -->new",
  "<!-- TemplateEndEditable --></body></html>"]

/-- What stands between two names in the manifest, up to the next quote. -/
def templateName : Text := "\n    \x7d,\n    \x7b\n      "

def page : Text := Text.concat ["<html><!-- InstanceBegin template=\"", templateName, "\" -->",
  "<!-- InstanceBeginEditable name=\"r\" -->own<!-- InstanceEndEditable --></html>"]

def previousRun : Text := Moment.runName ⟨1735603200, 0⟩ 1

/-- The manifest of a run that has written two files. -/
def previous : Manifest :=
  ⟨"t.dwt", previousRun, "2024-12-31T00:00:00+00:00", Text.concat ["/s/b/", previousRun],
    ["<!-- InstanceBegin template=", "-->"].map fun name =>
      ⟨Text.concat ["/s/", name], Text.concat ["/s/b/", previousRun, "/", name]⟩⟩

def written : Bytes := (Json.writeBytes? previous.toJson).getD []

def file (name : Text) : Path := ⟨.slash, ["s", name]⟩

def last : Path := ⟨.slash, ["s", "b", "last_backup.json"]⟩

def world : World :=
  World.make ⟨[(["s"], .dir), (["s", templateName], .file template.encode),
    (["s", "a.html"], .file page.encode), (["s", "b"], .dir),
    (["s", "b", "last_backup.json"], .file written)]⟩ [] "1"

def storage : Storage Sim := Storage.disk.withFaults ⟨[], [last.text], []⟩

def settings : Settings := { Settings.default ⟨.slash, ["s"]⟩ with backupDirName := "b" }

def finished (paths : List Path) : (Except Failure RunSummary × RunState) × World :=
  (run ⟨settings, Sim.scripted, storage⟩ (file templateName) paths ⟨.autoApplyAll, false⟩).run world

def statuses : Except Failure RunSummary → List FileStatus
  | .ok summary => summary.outcomes.map (·.status)
  | .error _ => []

theorem isSound_world : world.IsSound :=
  ⟨Tree.wellFormed_of_nodes (by decide +kernel), fun part hpart => by cases hpart⟩

theorem overDisk_storage : storage.OverDisk := Storage.overDisk_disk.withFaults _

theorem writeBytes?_previous : Json.writeBytes? previous.toJson = some written := by decide +kernel

theorem bytes?_last :
    world.tree.bytes? (place world.here (Backups.lastPath settings.backupRoot)) = some written := by
  decide +kernel

theorem run_confined_manifestAsPage : world.IsSound ∧ storage.OverDisk ∧
    statuses (finished [last, file "a.html"]).1.1 = [.ioFailed, .applied] ∧
    ∃ read run? visits, Confinement ⟨settings, Sim.scripted, storage⟩ (file templateName)
      [last, file "a.html"] ⟨.autoApplyAll, false⟩ read run? visits world
      (finished [last, file "a.html"]).2 (finished [last, file "a.html"]).1.1 := by
  have hstatuses : statuses (finished [last, file "a.html"]).1.1 = [.ioFailed, .applied] := by
    rw [finished, settings, Settings.default, world, templateName, template, page, templateName]
    repeat rw [Text.ofString_ofList]
    decide +kernel
  refine ⟨isSound_world, overDisk_storage, hstatuses, ?_⟩
  rcases hrun : finished [last, file "a.html"] with ⟨⟨result, final⟩, w'⟩
  rw [hrun] at hstatuses
  have hconfined := run_confined overDisk_storage isSound_world (by decide) (fun bytes hbytes => ?_) hrun
  · obtain ⟨e, -, rfl, -⟩ | ⟨read, run?, visits, -, hconfined⟩ := hconfined
    · cases hstatuses
    · exact ⟨read, run?, visits, hconfined⟩
  · obtain rfl := Option.some.inj (bytes?_last.symm.trans hbytes)
    exact ⟨previous, _, _, writeBytes?_previous, rfl⟩

/-- The one file that is visited fails, and is not what it was. -/
theorem bytes?_last_ne_of_ioFailed : world.IsSound ∧ storage.OverDisk ∧ last.IsProper ∧
    world.tree.bytes? (place world.here (Backups.lastPath settings.backupRoot)) = some written ∧
    Json.writeBytes? previous.toJson = some written ∧
    (∃ moment number, previous.runId = Moment.runName moment number) ∧
    statuses (finished [last]).1.1 = [.ioFailed] ∧
    (finished [last]).2.tree.bytes? (place world.here last) ≠
      world.tree.bytes? (place world.here last) := by
  refine ⟨isSound_world, overDisk_storage, by decide, bytes?_last, writeBytes?_previous,
    ⟨_, _, rfl⟩, ?_⟩
  rw [finished, settings, Settings.default, world, templateName, template, page, templateName]
  repeat rw [Text.ofString_ofList]
  decide +kernel

end Run.ManifestAsPage

end Stencil
