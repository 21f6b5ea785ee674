import Stencil.Proofs.Run.Quiet
import Stencil.Proofs.Run.Whole
import Stencil.Proofs.Undo.Records

/-!
# Runs as moves

A run with backups over files below its site is a list of moves that its books allow, from empty books on,
whatever the user answers and whatever fails (`exists_moves`).
-/

namespace Stencil

open Stencil.Path (IsName)
open Stencil.Tree (place)
open Stencil.Backups (Ties Goes)

namespace Run

variable {job : Job Sim} {template : Template} {templateName text : Text} {root path : Path}
  {here site : Loc} {tag id : Text} {paths : List Path} {s s' : Standing Progress}
  {b? b?' : Option Books} {visits : List Visit}

/-! ## Steps that leave the disk alone -/

theorem Rests.goes (h : Rests s s') (b? : Option Books) :
    Goes root here tag site id b? s.world b? s'.world := by
  obtain ⟨events, htrail, hidle⟩ := h.world
  exact .of_idle htrail hidle b?

theorem Rests.ties (h : Rests s s') (hties : Ties root here tag site id b? (toBackups s)) :
    Ties root here tag site id b? (toBackups s') := by
  obtain ⟨events, htrail, hidle⟩ := h.world
  have hmemory : (toBackups s').memory = (toBackups s).memory := h.backups
  refine ⟨htrail.here.trans hties.here_eq, htrail.tag.trans hties.tag_eq, ?_, ?_, ?_, ?_⟩
  · rw [show (toBackups s').world.tree = s.world.tree from htrail.tree_eq hidle]
    exact hties.wellFormed
  · rw [hmemory]
    exact hties.root
  · rw [hmemory]
    exact hties.has
  · rw [hmemory]
    exact hties.books

/-! ## Files -/

/-- A file that a run may be asked to write: it lies below the site and outside the backup root, and is
not called like the manifest of the run. -/
structure IsCandidate (root : Path) (here site : Loc) (id : Text) (path : Path) : Prop where
  isProper : path.IsProper
  named : path.parts ≠ []
  below : ∃ parts, parts ≠ [] ∧ parts ≠ [Backups.manifestName id] ∧ place here path = site ++ parts
  outside : ¬ place here root <+: place here path

theorem IsCandidate.exists_source (h : IsCandidate root here site id path)
    (hhere : ∀ part ∈ here, IsName part) :
    ∃ parts, place here path = site ++ parts ∧ IsSource root here site id parts := by
  obtain ⟨parts, hne, hmanifest, hplace⟩ := h.below
  refine ⟨parts, hplace, hne, hmanifest, ?_, hplace ▸ h.outside⟩
  rw [← hplace]
  exact Tree.isName_of_mem_place hhere h.isProper

/-- A page is written behind a snapshot of it. -/
theorem moves_write {bytes : Bytes} {result : Except Failure Unit} (hs : job.storage.OverDisk)
    (h : Ties root here tag site id b? (toBackups s))
    (hcopied : ∀ b, b? = some b → b.copied? = none) (hid : IsName id)
    (hhere : ∀ part ∈ here, IsName part) (hpath : IsCandidate root here site id path)
    (hread : s.world.tree.read here path = .ok bytes)
    (hplay : play (write job (some id) path text) s = (result, s')) :
    ∃ b?', Goes root here tag site id b? s.world b?' s'.world ∧
      Ties root here tag site id b?' (toBackups s') ∧
      ∀ b', b?' = some b' → b'.copied? = none ∨
        result = .error .unwritable ∧ Json.writeBytes? b'.next.toJson = none := by
  obtain ⟨parts, hplace, hsource⟩ := hpath.exists_source hhere
  obtain ⟨b₁?, hgoes, hties, hends⟩ := Backups.moves_snapshot (s := toBackups s) hs h hcopied hid
    hpath.isProper hplace hsource hread
  rcases write_cases job (some id) path text s with
    ⟨run, e, c, hrun, hsnapshot, hfails⟩ | ⟨s₁, ⟨hnone, -⟩ | ⟨run, entry, c, hrun, hsnapshot, rfl⟩, hdone⟩
  · obtain rfl := Option.some.inj hrun
    obtain ⟨rfl, rfl⟩ := Prod.mk.inj (hplay.symm.trans hfails)
    rw [hsnapshot] at hgoes hties hends
    refine ⟨b₁?, hgoes, hties, fun b' hb' => ?_⟩
    obtain ⟨-, hstuck | ⟨hsettled, -⟩⟩ := hends b' hb'
    · exact Or.inr ⟨congrArg Except.error (Except.error.inj hstuck.1), hstuck.2⟩
    · exact Or.inl hsettled
  · cases hnone
  · obtain rfl := Option.some.inj hrun
    rw [hsnapshot] at hgoes hties hends
    have hsettled : ∀ b', b₁? = some b' → b'.copied? = none ∧
        c.world.tree.read here path = .ok bytes ∧ Lists b'.manifest (site ++ parts) := by
      intro b' hb'
      obtain ⟨hread', ⟨hstuck, -⟩ | ⟨hsettled, hlists⟩⟩ := hends b' hb'
      · cases hstuck
      · exact ⟨hsettled, hread', hlists entry rfl⟩
    rcases hs.writeText_cases path text c.world with ⟨o, hwrite⟩ | hwrite
    · have hworld : (job.storage.writeText path text).run (withBackups s c).world =
          (.error o, c.world) := hwrite
      rw [hworld] at hdone
      obtain ⟨rfl, rfl⟩ := Prod.mk.inj (hplay.symm.trans hdone)
      exact ⟨b₁?, hgoes, hties, fun b' hb' => Or.inl (hsettled b' hb').1⟩
    · have hworld : (job.storage.writeText path text).run (withBackups s c).world =
          ((c.world.tree.replace c.world.here c.world.tag path text.encode).2,
            c.world.after (.replace path text.encode)) := hwrite
      rw [hworld] at hdone
      obtain ⟨rfl, rfl⟩ := Prod.mk.inj (hplay.symm.trans hdone)
      have hmoves : Goes root here tag site id b₁? c.world b₁?
          (c.world.after (.replace path text.encode)) := by
        cases b₁? with
        | none => exact .of_lost (Trail.after _ _)
        | some b' =>
            obtain ⟨hnone, hread', hlists⟩ := hsettled b' rfl
            exact ⟨_, Trail.after _ _,
              .single (.writes hnone hread' hpath.named hpath.outside (hplace ▸ hlists))⟩
      refine ⟨b₁?, hgoes.trans hmoves h.here_eq h.tag_eq, ?_, fun b' hb' => Or.inl (hsettled b' hb').1⟩
      refine ⟨hties.here_eq, hties.tag_eq, ?_, hties.root, hties.has, hties.books⟩
      exact Tree.wellFormed_replay hties.wellFormed _ _ _

/-! ## Visits -/

theorem moves_visit (hquiet : job.frontEnd.IsQuiet) (hs : job.storage.OverDisk)
    (h : Ties root here tag site id b? (toBackups s))
    (hcopied : ∀ b, b? = some b → b.copied? = none) (hid : IsName id)
    (hhere : ∀ part ∈ here, IsName part) (hpath : IsCandidate root here site id path)
    {result : Except Failure (Option Outcome)}
    (hplay : play (visit job template templateName (some id) path) s = (result, s')) :
    ∃ b?', Goes root here tag site id b? s.world b?' s'.world ∧
      Ties root here tag site id b?' (toBackups s') ∧
      ∀ b', b?' = some b' → b'.copied? = none ∨
        (∃ e, result = .error e) ∧ Json.writeBytes? b'.next.toJson = none := by
  have htouch := touch_visit hquiet hs template templateName (some id) path s
  rw [hplay] at htouch
  cases htouch with
  | rests hrests => exact ⟨b?, hrests.goes b?, hrests.ties h, fun b' hb' => Or.inl (hcopied b' hb')⟩
  | @writes s₁ s₂ _ _ bytes hread text written hrests hwrite hrests' hfails =>
      have hties := hrests.ties h
      obtain ⟨events, htrail, hidle⟩ := hrests.world
      have hread₁ : s₁.world.tree.read here path = .ok bytes := by
        rw [htrail.tree_eq hidle, ← h.here_eq]
        exact hread
      obtain ⟨b?', hgoes, hties', hends⟩ :=
        moves_write hs hties hcopied hid hhere hpath hread₁ hwrite
      refine ⟨b?', ((hrests.goes b?).trans hgoes h.here_eq h.tag_eq).trans (hrests'.goes b?') h.here_eq
        h.tag_eq, hrests'.ties hties', fun b' hb' => (hends b' hb').imp_right fun hstuck => ?_⟩
      exact ⟨⟨_, hfails _ hstuck.1 fun o heq => by cases heq⟩, hstuck.2⟩

/-- All visits of a run. -/
theorem moves_tour (hquiet : job.frontEnd.IsQuiet) (hs : job.storage.OverDisk) (hid : IsName id)
    (hhere : ∀ part ∈ here, IsName part) {result : Except Failure Unit}
    (htour : Tour job template templateName (some id) s paths visits result s')
    (h : Ties root here tag site id b? (toBackups s))
    (hcopied : ∀ b, b? = some b → b.copied? = none)
    (hpaths : ∀ path ∈ paths, IsCandidate root here site id path) :
    ∃ b?', Goes root here tag site id b? s.world b?' s'.world ∧
      Ties root here tag site id b?' (toBackups s') ∧ ∀ b', b?' = some b' → b'.IsSettled := by
  have hcall : ∀ s v b?, Call job template templateName (some id) s v →
      Ties root here tag site id b? (toBackups s) → (∀ b, b? = some b → b.copied? = none) →
      IsCandidate root here site id v.path →
      ∃ b?', Goes root here tag site id b? s.world b?' v.settled.world ∧
        Ties root here tag site id b?' (toBackups v.settled) ∧
        ∀ b', b?' = some b' → b'.copied? = none ∨
          (∃ e, v.result = .error e) ∧ Json.writeBytes? b'.next.toJson = none := by
    intro s v b? hcall h hcopied hpath
    have hpoll := rests_isStopped hquiet s
    rw [hcall.poll] at hpoll
    obtain ⟨b?', hgoes, hties, hends⟩ :=
      moves_visit hquiet hs (hpoll.ties h) hcopied hid hhere hpath hcall.visit
    have hsettled : Rests v.after v.settled := ⟨.refl _, rfl⟩
    exact ⟨b?', (hpoll.goes b?).trans hgoes h.here_eq h.tag_eq, hsettled.ties hties, hends⟩
  induction htour generalizing b? with
  | done s => exact ⟨b?, .refl _ _, h, fun b' hb' => Or.inl (hcopied b' hb')⟩
  | @stopped path paths s s₁ hpoll =>
      have hrests := rests_isStopped hquiet s
      rw [hpoll] at hrests
      have hstopping : Rests s (stopping s₁) := hrests.trans ⟨.refl _, rfl⟩
      exact ⟨b?, hstopping.goes b?, hstopping.ties h, fun b' hb' => Or.inl (hcopied b' hb')⟩
  | @ended paths s v hcalled hends =>
      obtain ⟨b?', hgoes, hties, hsettled⟩ := hcall s v b? hcalled h hcopied
        (hpaths _ List.mem_cons_self)
      exact ⟨b?', hgoes, hties, fun b' hb' => (hsettled b' hb').imp_right fun hstuck => hstuck.2⟩
  | @onward paths s s' v visits result hcalled hgoesOn htour ih =>
      obtain ⟨b?', hgoes, hties, hsettled⟩ := hcall s v b? hcalled h hcopied
        (hpaths _ List.mem_cons_self)
      obtain ⟨outcome?, hresult, -⟩ := hgoesOn
      have hcopied' : ∀ b', b?' = some b' → b'.copied? = none := by
        intro b' hb'
        rcases hsettled b' hb' with hnone | ⟨⟨e, he⟩, -⟩
        · exact hnone
        · cases hresult.symm.trans he
      obtain ⟨b?'', hgoes', hties', hends⟩ := ih hties hcopied' fun path hpath =>
        hpaths path (List.mem_cons_of_mem _ hpath)
      exact ⟨b?'', hgoes.trans hgoes' h.here_eq h.tag_eq, hties', hends⟩

/-! ## Whole runs -/

theorem moves_close (h : Ties root here tag site id b? (toBackups s))
    (hsettled : ∀ b, b? = some b → b.IsSettled) :
    ∃ b?', Goes root here tag site id b? s.world b?' (play (close (some id)) s).2.world := by
  have hkeeps : Keeps (some id) s.memory := fun run hrun => Option.some.inj hrun ▸ h.has
  rcases close_cases hkeeps with ⟨backups, hplay, -⟩ | ⟨run, manifest, hrun, hlookup, -, hentries, hplay⟩
  · rw [hplay]
    exact ⟨b?, .refl _ _⟩
  · obtain rfl := Option.some.inj hrun
    rw [hplay]
    refine Backups.moves_finalize h hsettled fun manifest' hmanifest' => ?_
    obtain rfl := Option.some.inj (hlookup.symm.trans hmanifest')
    exact hentries

/-- A run with backups begins with empty books. -/
theorem Opening.ties {state : RunState} {run? : Option Text} {w : World}
    (h : Opening job templateName state w run? s) (hbackups : job.settings.backupsEnabled = true)
    (hw : w.tree.WellFormed) :
    run? = some (World.runName (w.runs + 1)) ∧
      ∃ m : Manifest, m.runId = World.runName (w.runs + 1) ∧ m.entries = [] ∧
        Ties job.settings.backupRoot w.here w.tag (place w.here job.settings.siteRoot)
          (World.runName (w.runs + 1)) (some ⟨m, none, none⟩) (toBackups s) := by
  cases h with
  | plain hdisabled => cases hbackups.symm.trans hdisabled
  | backed =>
      refine ⟨rfl, emptyManifest job.settings.backupRoot templateName
          ⟨World.runName (w.runs + 1), World.now.iso⟩, rfl, rfl,
        rfl, rfl, hw, rfl, ⟨_, Backups.lookup_setRun _ _ _, rfl⟩, fun b hb => ?_⟩
      obtain rfl := Option.some.inj hb
      exact ⟨rfl, Backups.lookup_setRun _ _ _, rfl⟩

/-- A run with backups is a list of moves from empty books on. -/
theorem exists_moves (hquiet : job.frontEnd.IsQuiet) (hs : job.storage.OverDisk)
    (hbackups : job.settings.backupsEnabled = true) (templatePath : Path) {state final : RunState}
    {w w' : World} {result : Except Failure RunSummary} (hw : w.IsSound)
    (hpaths : ∀ path ∈ paths, IsCandidate job.settings.backupRoot w.here
      (place w.here job.settings.siteRoot) (World.runName (w.runs + 1)) path)
    (hrun : (run job templatePath paths state).run w = ((result, final), w')) :
    ∃ (events : List Event) (m : Manifest) (b? : Option Books), Trail w events w' ∧
      m.runId = World.runName (w.runs + 1) ∧ m.entries = [] ∧
      Moves job.settings.backupRoot w.here w.tag (place w.here job.settings.siteRoot)
        (World.runName (w.runs + 1)) (some ⟨m, none, none⟩) w.tree events b? := by
  obtain ⟨loading, hloading, hreads⟩ := loadTemplate_trail hs templatePath w
  have hloadIdle : ∀ event ∈ loading, event.isIdle = true := fun event he => hreads event he ▸ rfl
  have hruns := loadTemplate_runs hs templatePath w
  rcases run_cases job templatePath paths state w with
    ⟨e, w₁, hload, hrun'⟩ | ⟨template, w₁, run?, s₀, visits, visited, s₁, closed, s₂, result', s₃,
      hload, hopening, htour, hclose, hconclusion, hrun'⟩
  · rw [hload] at hloading
    obtain ⟨-, rfl⟩ := Prod.mk.inj (hrun.symm.trans hrun')
    exact ⟨loading, emptyManifest job.settings.backupRoot templatePath.name
      ⟨World.runName (w.runs + 1), World.now.iso⟩, _, hloading, rfl, rfl, .of_idle hloadIdle _ _⟩
  · rw [hload] at hloading hruns
    obtain ⟨-, rfl⟩ := Prod.mk.inj (hrun.symm.trans hrun')
    obtain ⟨opening, hopeningTrail, hlogs⟩ := hopening.trail
    have htree₁ := hloading.tree_eq hloadIdle
    obtain ⟨rfl, m, hrunId, hentries, hties⟩ := hopening.ties hbackups (htree₁.symm ▸ hw.tree)
    rw [hloading.here, hloading.tag, hruns] at hties
    rw [hruns] at hrunId htour hclose
    have hid : IsName (World.runName (w.runs + 1)) := World.now.isName_runName _
    obtain ⟨b?, htourGoes, hties', hsettled⟩ := moves_tour hquiet hs hid hw.here htour hties
      (fun b hb => by rw [← Option.some.inj hb]) hpaths
    obtain ⟨b?', hcloseGoes⟩ := moves_close hties' hsettled
    rw [hclose] at hcloseGoes
    obtain ⟨-, ⟨last, hlastTrail, hlastLogs⟩, -⟩ := hconclusion.cases
    have hbegin : Goes job.settings.backupRoot w.here w.tag (place w.here job.settings.siteRoot)
        (World.runName (w.runs + 1)) (some ⟨m, none, none⟩) w (some ⟨m, none, none⟩) s₀.world :=
      .of_idle (hloading.trans hopeningTrail) (List.forall_mem_append.mpr
        ⟨hloadIdle, fun event he => Event.isIdle_of_isLog (hlogs event he)⟩) _
    have hlast : Goes job.settings.backupRoot w.here w.tag (place w.here job.settings.siteRoot)
        (World.runName (w.runs + 1)) b?' s₂.world b?' s₃.world :=
      .of_idle hlastTrail (fun event he => Event.isIdle_of_isLog (hlastLogs event he)) _
    obtain ⟨events, htrail, hmoves⟩ := hbegin.trans (htourGoes.trans
      (hcloseGoes.trans hlast hties'.here_eq hties'.tag_eq) hties.here_eq hties.tag_eq) rfl rfl
    exact ⟨events, m, b?', htrail, hrunId, hentries, hmoves⟩

end Run

end Stencil
