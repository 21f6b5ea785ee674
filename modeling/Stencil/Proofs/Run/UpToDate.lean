import Stencil.Proofs.Document.Binding
import Stencil.Proofs.Run.Answers
import Stencil.Proofs.Run.Quiet
import Stencil.Proofs.Run.Whole

/-!
# Runs with nothing to do

A file is up to date if it is no page of the template, or a page that merging does not change
(`UpToDate`). At such a file a visit does nothing to the disk and to its backups (`Course.rests`), so a
run that finds all its files up to date does nothing at all (`run_rests`): it only tells of each of
them what there is to tell.
-/

namespace Stencil

open Stencil.Tree (place)

namespace Run

variable {job : Job Sim} {template : Template} {templateName : Text} {run? : Option Text}
  {path : Path} {paths : List Path} {s s' s'' : Standing Progress} {visits : List Visit}
  {text : Text} {page : Page}

/-! ## Pages that are up to date -/

/-- The text is a page of the template. -/
structure IsPageOf (templateName text : Text) (page : Page) : Prop where
  build : Page.build text [] = .ok page
  name : page.templateName = templateName

theorem isPageOf_of_build {source : Text} (h : Page.build text source = .ok page)
    (hname : page.templateName = templateName) :
    IsPageOf templateName text { page with source := [] } :=
  ⟨Page.build_of_build h [], hname⟩

/-- Merging leaves the text as it is, if it is a page of the template at all. -/
def UpToDate (template : Template) (templateName text : Text) : Prop :=
  ∀ page, IsPageOf templateName text page → (merge template page).text = text

/-- What is recorded of a file with this text, if it is not to be changed. -/
def upshot? (templateName text : Text) : Option FileStatus :=
  match Page.build text [] with
  | .error _ => some .parseFailed
  | .ok page => if page.templateName = templateName then some .skippedNoChange else none

theorem upshot?_of_error {source : Text} {fault : Fault}
    (h : Page.build text source = .error fault) :
    upshot? templateName text = some .parseFailed := by
  rw [upshot?]
  split
  · rfl
  · next page hbuild => cases h.symm.trans (Page.build_of_build hbuild source)

theorem upshot?_of_build {source : Text} (h : Page.build text source = .ok page) :
    upshot? templateName text =
      if page.templateName = templateName then some .skippedNoChange else none := by
  rw [upshot?, Page.build_of_build h []]
  rfl

theorem IsPageOf.upshot? (h : IsPageOf templateName text page) :
    upshot? templateName text = some .skippedNoChange := by
  rw [upshot?_of_build h.build, if_pos h.name]

theorem Changes.not_upToDate (h : Changes template templateName path text page) :
    ¬ UpToDate template templateName text := fun hup => by
  have hsame := hup _ (isPageOf_of_build h.build h.name)
  exact h.differs hsame

theorem Unproposed.upshot? {outcome? : Option Outcome}
    (h : Unproposed job template templateName path (.ok text) outcome?) :
    outcome?.map (fun outcome => (outcome.path, outcome.status)) =
      (upshot? templateName text).map (job.settings.display path, ·) := by
  cases h with
  | malformed _ fault h => rw [upshot?_of_error h]; rfl
  | foreign _ page h hname => rw [upshot?_of_build h, if_neg hname]; rfl
  | unchanged _ page h hname hsame => rw [upshot?_of_build h, if_pos hname]; rfl

/-! ## A run that finds all pages up to date -/

/-- The file can be read and is up to date. -/
def IsCurrent (template : Template) (templateName : Text) (w : World) (path : Path) : Prop :=
  ∃ bytes, w.tree.read w.here path = .ok bytes ∧
    UpToDate template templateName (Text.decode bytes)

/-- What is recorded of a file that is not to be changed. -/
def report? (settings : Settings) (templateName : Text) (w : World) (path : Path) :
    Option (Text × FileStatus) :=
  ((w.tree.bytes? (place w.here path)).bind fun bytes => upshot? templateName (Text.decode bytes)).map
    (settings.display path, ·)

theorem held_disk (hdisk : job.storage = Storage.disk) (path : Path) (s : Standing Progress) :
    held job path s = (s.world.tree.read s.world.here path).map Text.decode := by
  rw [held, hdisk]
  rfl

/-- At a file that is up to date nothing is done. -/
theorem Course.rests (hdisk : job.storage = Storage.disk)
    {result : Except Failure (Option Outcome)}
    (h : Course job template templateName run? path s result s')
    (hcurrent : IsCurrent template templateName s.world path) :
    Rests s s' ∧ ∃ outcome?, result = .ok outcome? ∧
      outcome?.map (fun outcome => (outcome.path, outcome.status)) =
        report? job.settings templateName s.world path := by
  have hs : job.storage.OverDisk := hdisk ▸ Storage.overDisk_disk
  obtain ⟨bytes, hbytes, hup⟩ := hcurrent
  have hheld : held job path s = .ok (Text.decode bytes) := by rw [held_disk hdisk, hbytes]; rfl
  have hnot : ∀ {text page}, held job path s = .ok text →
      ¬ Changes template templateName path text page := fun {text page} hread hchanges => by
    obtain rfl := Except.ok.inj (hheld.symm.trans hread)
    exact hchanges.not_upToDate hup
  cases h with
  | unproposed outcome? script level message h =>
      obtain ⟨reads, hreads, hread_mem⟩ := exists_reads hs path s
      have hopened : Idle s.world (opened job path s).world :=
        ⟨reads, hreads, fun event he => hread_mem event he ▸ rfl⟩
      refine ⟨⟨hopened.trans ((Idle.after _ rfl).trans (Idle.scriptedBy _ script)), rfl⟩, outcome?, rfl,
        ?_⟩
      rw [hheld] at h
      rw [h.upshot?, report?, Tree.bytes?_eq_some.mpr (Tree.read_eq_ok.mp hbytes).2]
      rfl
  | skipped _ _ _ _ _ hread hchanges => exact absurd hchanges (hnot hread)
  | cancelled _ _ _ _ _ hread hchanges => exact absurd hchanges (hnot hread)
  | written _ _ _ _ _ _ _ hread hchanges => exact absurd hchanges (hnot hread)
  | failed _ _ _ _ _ _ _ _ _ hread hchanges => exact absurd hchanges (hnot hread)
  | aborted _ _ _ _ _ _ hread hchanges => exact absurd hchanges (hnot hread)

theorem IsCurrent.of_tree {w w' : World} (h : IsCurrent template templateName w path)
    (htree : w'.tree = w.tree) (hhere : w'.here = w.here) :
    IsCurrent template templateName w' path := by
  rwa [IsCurrent, htree, hhere]

theorem report?_of_tree {w w' : World} (settings : Settings) (templateName : Text)
    (htree : w'.tree = w.tree) (hhere : w'.here = w.here) :
    report? settings templateName w' = report? settings templateName w := by
  funext path
  rw [report?, report?, htree, hhere]

/-- Over files that are up to date nothing is done. -/
theorem Tour.rests (hfront : job.frontEnd = Sim.scripted) (hdisk : job.storage = Storage.disk)
    (hkeeps : Keeps run? s.memory) {result : Except Failure Unit}
    (h : Tour job template templateName run? s paths visits result s')
    (hcurrent : ∀ path ∈ paths, IsCurrent template templateName s.world path) :
    Rests s s' ∧ result = .ok () ∧ ∀ v ∈ visits,
      v.outcome?.map (fun outcome => (outcome.path, outcome.status)) =
        report? job.settings templateName s.world v.path := by
  have hs : job.storage.OverDisk := hdisk ▸ Storage.overDisk_disk
  have hcall : ∀ s v, Account job template templateName run? s v →
      IsCurrent template templateName s.world v.path →
      Rests s v.settled ∧ ∃ outcome?, v.result = .ok outcome? ∧
        v.outcome?.map (fun outcome => (outcome.path, outcome.status)) =
          report? job.settings templateName s.world v.path := by
    intro s v haccount hcurrent
    have hpolled : Idle s.world v.before.world := ⟨_, haccount.polled, by simp [Event.isIdle]⟩
    have htree := haccount.polled.tree_eq (by simp [Event.isIdle])
    obtain ⟨hrests, outcome?, hresult, hreport⟩ :=
      haccount.course.rests hdisk (hcurrent.of_tree htree haccount.polled.here)
    have hsettled : Rests v.after v.settled := ⟨Idle.refl _, rfl⟩
    have hbefore : Rests s v.before := ⟨hpolled, by rw [haccount.memory]⟩
    refine ⟨(hbefore.trans hrests).trans hsettled, outcome?, hresult, ?_⟩
    rw [Visit.outcome?, hresult]
    rwa [report?_of_tree _ _ htree haccount.polled.here] at hreport
  have hgoal : (∀ path ∈ paths, IsCurrent template templateName s.world path) →
      Rests s s' ∧ result = .ok () ∧ ∀ v ∈ visits,
        v.outcome?.map (fun outcome => (outcome.path, outcome.status)) =
          report? job.settings templateName s.world v.path := by
    refine Tour.rec_account hfront hs ?_ ?_ ?_ ?_ ?_ h hkeeps
    · intro s _
      exact ⟨.refl s, rfl, by simp⟩
    · intro path paths s _ _
      exact ⟨.refl s, rfl, by simp⟩
    · intro path paths s w _ htrail _
      exact ⟨⟨⟨_, htrail, by simp [Event.isIdle]⟩, rfl⟩, rfl, by simp⟩
    · intro paths s v haccount _ hcurrent
      obtain ⟨hrests, outcome?, hresult, hreport⟩ := hcall s v haccount (hcurrent _ List.mem_cons_self)
      exact ⟨hrests, by rw [hresult]; rfl, List.forall_mem_singleton.mpr hreport⟩
    · intro paths s v visits result s' haccount _ ih hcurrent
      obtain ⟨hrests, -, -, hreport⟩ := hcall s v haccount (hcurrent _ List.mem_cons_self)
      obtain ⟨events, htrail, hidle⟩ := hrests.world
      have htree := htrail.tree_eq hidle
      obtain ⟨hrests', hresult, hreports⟩ := ih fun path hpath =>
        (hcurrent path (List.mem_cons_of_mem _ hpath)).of_tree htree htrail.here
      rw [report?_of_tree _ _ htree htrail.here] at hreports
      exact ⟨hrests.trans hrests', hresult, List.forall_mem_cons.mpr ⟨hreport, hreports⟩⟩
  exact hgoal hcurrent

/-- What loading a template gives is read from the disk. -/
theorem loadTemplate_eq_ok (hdisk : job.storage = Storage.disk) {w : World} :
    ((loadTemplate job.storage path).run.run w).1 = .ok template ↔
      ∃ bytes, w.tree.read w.here path = .ok bytes ∧
        Template.build (Text.decode bytes) path.text = .ok template := by
  have hread : (job.storage.readText path).run w =
      ((w.tree.read w.here path).map Text.decode, w.after (.read path)) := by
    rw [hdisk]
    rfl
  rw [loadTemplate, run_bind, run_os, hread]
  cases w.tree.read w.here path with
  | error e =>
      refine iff_of_false (fun h => by cases h) ?_
      rintro ⟨bytes, hbytes, -⟩
      cases hbytes
  | ok bytes =>
      dsimp only [Except.map, Except.mapError]
      cases hbuild : Template.build (Text.decode bytes) path.text with
      | error fault =>
          refine iff_of_false (fun h => by cases h) ?_
          rintro ⟨bytes', hbytes, hok⟩
          obtain rfl := Except.ok.inj hbytes
          cases hbuild.symm.trans hok
      | ok read =>
          show Except.ok read = Except.ok template ↔ _
          refine ⟨fun h => ⟨bytes, rfl, by rw [hbuild, Except.ok.inj h]⟩, ?_⟩
          rintro ⟨bytes', hbytes, hok⟩
          obtain rfl := Except.ok.inj hbytes
          rw [Except.ok.inj (hbuild.symm.trans hok)]

theorem Opening.entries {state : RunState} {w : World} {run : Text} {manifest : Manifest}
    (h : Opening job templateName state w (some run) s)
    (hlookup : s.memory.backups.runs.lookup run = some manifest) : manifest.entries = [] := by
  cases h with
  | backed =>
      dsimp only at hlookup
      rw [Backups.lookup_setRun] at hlookup
      obtain rfl := Option.some.inj hlookup
      rfl

/-- A run that has backed up nothing ends without a manifest. -/
theorem Opening.close_eq {state : RunState} {w : World}
    (h : Opening job templateName state w run? s) (hkeeps : Keeps run? s'.memory)
    (hbackups : s'.memory.backups = s.memory.backups) :
    ∃ backups, play (close run?) s' = (.ok none, ⟨{ s'.memory with backups }, s'.world⟩) := by
  rcases close_cases hkeeps with ⟨backups, hclose, -⟩ | ⟨run, manifest, rfl, hlookup, -, hentries, -⟩
  · exact ⟨backups, hclose⟩
  · rw [hbackups] at hlookup
    exact absurd (h.entries hlookup) hentries

/-- What a run does whose template can be loaded. -/
theorem exists_parts (hs : job.storage.OverDisk) {templatePath : Path} {state final : RunState}
    {w w' : World} {result : Except Failure RunSummary}
    (htemplate : ((loadTemplate job.storage templatePath).run.run w).1 = .ok template)
    (hrun : (run job templatePath paths state).run w = ((result, final), w')) :
    ∃ run? w₁ s₀ visits visited s₁ closed s₂ s₃, Idle w w₁ ∧ Idle w s₀.world ∧
      Opening job templatePath.name state w₁ run? s₀ ∧
      Tour job template templatePath.name run? s₀ paths visits visited s₁ ∧
      play (close run?) s₁ = (closed, s₂) ∧
      Conclusion templatePath.name s₂ visited closed result s₃ ∧ s₃.world = w' := by
  obtain ⟨loading, hloading, hreads⟩ := loadTemplate_trail hs templatePath w
  have hloadIdle : ∀ event ∈ loading, event.isIdle = true :=
    fun event he => hreads event he ▸ rfl
  rcases run_cases job templatePath paths state w with
    ⟨e, w₁, hload, -⟩ | ⟨template', w₁, run?, s₀, visits, visited, s₁, closed, s₂, result', s₃, hload,
      hopening, htour, hclose, hconclusion, hrun'⟩
  · rw [hload] at htemplate
    cases htemplate
  · rw [hload] at hloading htemplate
    obtain rfl : template' = template := Except.ok.inj htemplate
    obtain ⟨hresult, hworld⟩ := Prod.mk.inj (hrun.symm.trans hrun')
    obtain ⟨rfl, -⟩ := Prod.mk.inj hresult
    obtain ⟨opening, hopeningTrail, hlogs⟩ := hopening.trail
    have hloaded : Idle w w₁ := ⟨loading, hloading, hloadIdle⟩
    have hopened : Idle w₁ s₀.world :=
      ⟨opening, hopeningTrail, fun event he => Event.isIdle_of_isLog (hlogs event he)⟩
    exact ⟨run?, w₁, s₀, visits, visited, s₁, closed, s₂, s₃, hloaded, hloaded.trans hopened, hopening,
      htour, hclose, hconclusion, hworld.symm⟩

/-- A run over files that are up to date does nothing to the disk, keeps no backups and records of each
file just that. -/
theorem run_rests (hfront : job.frontEnd = Sim.scripted) (hdisk : job.storage = Storage.disk)
    {templatePath : Path} {state final : RunState} {w w' : World}
    {result : Except Failure RunSummary}
    (htemplate : ((loadTemplate job.storage templatePath).run.run w).1 = .ok template)
    (hcurrent : ∀ path ∈ paths, IsCurrent template templatePath.name w path)
    (hrun : (run job templatePath paths state).run w = ((result, final), w')) :
    Idle w w' ∧ ∃ summary, result = .ok summary ∧ summary.manifest? = none ∧
      (summary.cancelled = false →
        summary.outcomes.map (fun outcome => (outcome.path, outcome.status)) =
          paths.filterMap (report? job.settings templatePath.name w)) := by
  have hs : job.storage.OverDisk := hdisk ▸ Storage.overDisk_disk
  obtain ⟨run?, w₁, s₀, visits, visited, s₁, closed, s₂, s₃, -, ⟨events, hbegun, hidle⟩, hopening,
    htour, hclose, hconclusion, rfl⟩ := exists_parts hs htemplate hrun
  obtain ⟨-, houtcomes, -, hkeeps, -⟩ := hopening.memory
  have htree₀ := hbegun.tree_eq hidle
  obtain ⟨hrests, rfl, hreports⟩ := htour.rests hfront hdisk hkeeps fun path hpath =>
    (hcurrent path hpath).of_tree htree₀ hbegun.here
  rw [report?_of_tree _ _ htree₀ hbegun.here] at hreports
  obtain ⟨backups, hclose'⟩ :=
    hopening.close_eq (htour.keeps hfront hs hkeeps).1 hrests.backups
  obtain ⟨rfl, rfl⟩ := Prod.mk.inj (hclose'.symm.trans hclose)
  cases hconclusion with
  | finished _ level message =>
      refine ⟨?_, _, rfl, rfl, fun hrunning => ?_⟩
      · exact (Idle.trans ⟨events, hbegun, hidle⟩ hrests.world).trans
          (Idle.after _ rfl)
      · dsimp only at hrunning ⊢
        rw [htour.outcomes hfront hs hkeeps, houtcomes, List.nil_append,
          ← htour.complete hfront hs hkeeps rfl hrunning, List.map_filterMap, List.filterMap_map]
        exact List.filterMap_congr hreports

end Run

end Stencil
