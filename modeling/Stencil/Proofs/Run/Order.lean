import Stencil.Proofs.Run.Turns

/-!
# The order of files

A run that approves everything does the same in whatever order it goes over its files (`run_alike`):
files outside the backup root come to hold the same, each file has the same outcome, and what is backed
up is the same. The manifests are taken to be written where they are to be, and the way to the backup
root not to turn back in a directory that is not there. With such a way the first snapshot makes that
directory even if it is refused, and the next one is refused in other words
(`TwoOrders.not_alike_back`).
-/

namespace Stencil

open Stencil.Path (IsName)
open Stencil.Tree (Spares Straight place)
open Backups (IsEnded IsStale entryFor kept lastLoc lastPath manifestLoc shelf)

namespace Run

variable {settings : Settings} {faults : Faults} {template : Template} {templateName : Text}
  {run? : Option Text} {here loc : Loc} {id : Text} {paths paths' all : List Path}
  {t t₁ t₂ u₁ u₂ : Tree} {entries : List BackupEntry} {turns turns₁ turns₂ : List Turn}
  {s s' : Standing Progress} {w : World}

/-! ## Turns in another order -/

/-- What is the same for the same file is taken from the files by one function in any order. -/
theorem exists_common {β : Type} (f : Turn → Option β)
    (hperm : (turns₁.map (·.path)).Perm (turns₂.map (·.path)))
    (halike : ∀ turn₁ ∈ turns₁, ∀ turn₂ ∈ turns₂, turn₁.path = turn₂.path → f turn₁ = f turn₂) :
    ∃ g : Path → Option β,
      (∀ path b, g path = some b → ∃ turn ∈ turns₁, turn.path = path ∧ f turn = some b) ∧
      turns₁.filterMap f = (turns₁.map (·.path)).filterMap g ∧
      turns₂.filterMap f = (turns₂.map (·.path)).filterMap g := by
  have hfound : ∀ turn ∈ turns₁, ∃ found ∈ turns₁, found.path = turn.path ∧
      turns₁.find? (fun other => other.path = turn.path) = some found := by
    intro turn hturn
    obtain ⟨found, hfind⟩ := Option.isSome_iff_exists.mp (List.find?_isSome.mpr
      ⟨turn, hturn, decide_eq_true rfl⟩ :
        (turns₁.find? fun other => other.path = turn.path).isSome = true)
    exact ⟨found, List.mem_of_find?_eq_some hfind, by simpa using List.find?_some hfind, hfind⟩
  have hother : ∀ turn ∈ turns₁, ∃ turn₂ ∈ turns₂, turn₂.path = turn.path := fun turn hturn =>
    List.mem_map.mp (hperm.mem_iff.mp (List.mem_map_of_mem hturn))
  have hother' : ∀ turn ∈ turns₂, ∃ turn₁ ∈ turns₁, turn₁.path = turn.path := fun turn hturn =>
    List.mem_map.mp (hperm.mem_iff.mpr (List.mem_map_of_mem hturn))
  refine ⟨fun path => (turns₁.find? fun turn => turn.path = path).bind f, ?_, ?_, ?_⟩
  · intro path b hb
    obtain ⟨found, hfind, hf⟩ := Option.bind_eq_some_iff.mp hb
    exact ⟨found, List.mem_of_find?_eq_some hfind, by simpa using List.find?_some hfind, hf⟩
  · rw [List.filterMap_map]
    refine List.filterMap_congr fun turn hturn => ?_
    obtain ⟨found, hmem, hpath, hfind⟩ := hfound turn hturn
    obtain ⟨turn₂, hmem₂, hpath₂⟩ := hother turn hturn
    rw [Function.comp_apply, hfind, Option.bind_some,
      halike turn hturn turn₂ hmem₂ hpath₂.symm,
      halike found hmem turn₂ hmem₂ (hpath.trans hpath₂.symm)]
  · rw [List.filterMap_map]
    refine List.filterMap_congr fun turn hturn => ?_
    obtain ⟨turn₁, hmem₁, hpath₁⟩ := hother' turn hturn
    obtain ⟨found, hmem, hpath, hfind⟩ := hfound turn₁ hmem₁
    rw [hpath₁] at hpath hfind
    rw [Function.comp_apply, hfind, Option.bind_some, halike found hmem turn hturn hpath]

/-- The turns of a file come to the same in both runs. -/
theorem Field.turns_alike (h : Field settings run? here id all t)
    (hturns₁ : Turns settings faults template templateName run? here id paths all t t₁ turns₁)
    (hturns₂ : Turns settings faults template templateName run? here id paths' all t t₂ turns₂)
    {turn₁ turn₂ : Turn} (hmem₁ : turn₁ ∈ turns₁) (hmem₂ : turn₂ ∈ turns₂)
    (hpath : turn₁.path = turn₂.path) (hall : turn₁.path ∈ all) :
    turn₁.outcome? = turn₂.outcome? ∧ turn₁.listed? = turn₂.listed? ∧
      ∀ loc, IsSpot settings here id turn₁.path loc → t₁.bytes? loc = t₂.bytes? loc := by
  obtain ⟨hcomes₁, hbefore₁, hafter₁⟩ := hturns₁.among turn₁ hmem₁
  obtain ⟨hcomes₂, hbefore₂, hafter₂⟩ := hturns₂.among turn₂ hmem₂
  rw [← hpath] at hcomes₂ hbefore₂ hafter₂
  obtain ⟨houtcome, hentry, hspots⟩ := h.comes_alike hall hbefore₁ hbefore₂ hcomes₁ hcomes₂
  refine ⟨houtcome, hentry, fun loc hspot => ?_⟩
  have huntouched := h.not_isTouched_of_isSpot hall hspot
  rw [hafter₁.bytes? huntouched, hafter₂.bytes? huntouched, hspots loc hspot]

/-- Whatever the order, the turns leave the same in the places of files and outside the backup root. -/
theorem Field.bytes?_alike (h : Field settings run? here id all t)
    (hturns₁ : Turns settings faults template templateName run? here id paths all t t₁ turns₁)
    (hturns₂ : Turns settings faults template templateName run? here id paths' all t t₂ turns₂)
    (hperm : paths.Perm paths') (hall : ∀ path ∈ paths, path ∈ all) :
    (∀ path ∈ paths, ∀ loc, IsSpot settings here id path loc → t₁.bytes? loc = t₂.bytes? loc) ∧
      ∀ loc, ¬ place here settings.backupRoot <+: loc → t₁.bytes? loc = t₂.bytes? loc := by
  have hspots : ∀ path ∈ paths, ∀ loc, IsSpot settings here id path loc →
      t₁.bytes? loc = t₂.bytes? loc := by
    intro path hpath loc hspot
    obtain ⟨turn₁, hmem₁, rfl⟩ := List.mem_map.mp (hturns₁.paths_eq.symm ▸ hpath)
    obtain ⟨turn₂, hmem₂, hsame⟩ :=
      List.mem_map.mp (hturns₂.paths_eq.symm ▸ hperm.mem_iff.mp hpath)
    exact (h.turns_alike hturns₁ hturns₂ hmem₁ hmem₂ hsame.symm (hall _ hpath)).2.2 loc hspot
  refine ⟨hspots, fun loc hloc => ?_⟩
  by_cases hplace : ∃ path ∈ paths, loc = place here path
  · obtain ⟨path, hpath, rfl⟩ := hplace
    exact hspots path hpath _ (Or.inl rfl)
  · have huntouched : ∀ among : Path → Prop, (∀ path, among path → path ∈ paths) →
        ¬ IsTouched settings here id among loc := by
      rintro among hamong ⟨path, hpath, heq | htaken⟩
      · exact hplace ⟨path, hamong path hpath, heq⟩
      · exact hloc htaken.within
    rw [hturns₁.wakes.bytes? (huntouched _ fun _ hpath => hpath),
      hturns₂.wakes.bytes? (huntouched _ fun _ hpath => hperm.mem_iff.mpr hpath)]

/-! ## One run -/

/-- How a run ends that has listed these entries: it leaves everything as it is if there are none, and
otherwise the last manifest lists them. -/
inductive Ends (root : Path) (here : Loc) (id : Text) (entries : List BackupEntry) (t u : Tree) :
    Option Path → Prop
  | idle (hnone : entries = []) (hsame : u = t) : Ends root here id entries t u none
  | kept {m : Manifest} {bytes : Bytes} (hentries : m.entries = entries) (hsome : entries ≠ [])
      (hwritten : Json.writeBytes? m.toJson = some bytes)
      (hlies : u.bytes? (lastLoc root here) = some bytes)
      (hspares : Spares (IsEnded root here id) t u) :
      Ends root here id entries t u (some (lastPath root))

theorem close_ends (hkeeps : Keeps run? s.memory)
    (hroot : s.memory.backups.root = settings.backupRoot) (hid : ∀ run, run? = some run → run = id)
    {closed : Except Failure (Option Path)} (hplay : play (close run?) s = (closed, s'))
    (hrecorded : Recorded settings.backupRoot id s.world s'.world) :
    closed = .error .unwritable ∨ ∃ manifest?, closed = .ok manifest? ∧
      ∀ entries, Minds settings run? id entries s.memory.backups → Cautious run? s →
        (run? = some id → Straight s.world.tree s.world.here settings.backupRoot) →
        Ends settings.backupRoot s.world.here id entries s.world.tree s'.world.tree manifest? := by
  rcases close_cases hkeeps with
    ⟨backups, hclose, hempty⟩ | ⟨run, m, hrun, hlookup, hrunId, hsome, hclose⟩
  · obtain ⟨rfl, rfl⟩ := Prod.mk.inj (hclose.symm.trans hplay)
    refine Or.inr ⟨none, rfl, fun entries hminds _ _ => .idle ?_ rfl⟩
    cases hrun : run? with
    | none => exact hminds.plain hrun
    | some run =>
        obtain ⟨rfl, m, hlookup, -, rfl⟩ := hminds.lists run hrun
        obtain ⟨m', hlookup', hnil⟩ := hempty _ hrun
        exact Option.some.inj (hlookup.symm.trans hlookup') ▸ hnil
  · obtain rfl := hid run hrun
    rcases hfinalize : play (Backups.finalize run) (toBackups s) with ⟨result, b⟩
    rw [hfinalize] at hclose
    obtain ⟨rfl, rfl⟩ := Prod.mk.inj (hclose.symm.trans hplay)
    rcases Backups.finalize_ends (s := toBackups s) hroot hlookup hrunId hfinalize hrecorded with
      rfl | ⟨rfl, hends⟩
    · exact Or.inl rfl
    · refine Or.inr ⟨_, rfl, fun entries hminds hcautious hstraight => ?_⟩
      obtain ⟨hname, hlast, hcareful⟩ := hcautious run hrun
      have hstale := hcareful.stale
      rw [show (toBackups s).memory.root = _ from hroot] at hstale
      obtain ⟨bytes, hwritten, hlies, hspares⟩ := hends (hstraight hrun) hname hlast hstale
      obtain ⟨-, m', hlookup', -, rfl⟩ := hminds.lists run hrun
      obtain rfl := Option.some.inj (hlookup.symm.trans hlookup')
      exact .kept rfl hsome hwritten hlies hspares

/-- Different files below the site that a run may be asked to write. -/
structure IsRoster (settings : Settings) (w : World) (paths : List Path) : Prop where
  candidates : ∀ path ∈ paths, IsCandidate settings.backupRoot w.here
    (place w.here settings.siteRoot) (World.runName (w.runs + 1)) path
  readable : ∀ path ∈ paths, ∃ bytes, w.tree.read w.here path = .ok bytes
  distinct : (paths.map (place w.here)).Nodup

/-- A world in which a run can keep its backups: its directory is there, the last manifest is one that a
run has written, and the way to the backup root does not turn back in a directory that is not there. -/
structure IsGround (settings : Settings) (w : World) : Prop where
  sound : w.IsSound
  here : w.tree.node? w.here = some .dir
  last : LastWritten settings.backupRoot w
  straight : settings.backupsEnabled = true → ¬ Tree.IsDetour w.tree w.here settings.backupRoot

theorem IsGround.field (h : IsGround settings w) (hroster : IsRoster settings w paths) :
    Field settings (nextRun? settings w) w.here (World.runName (w.runs + 1)) paths w.tree where
  wellFormed := h.sound.tree
  names := h.sound.here
  isName := World.now.isName_runName _
  ne_last := World.now.runName_ne_lastFileName _
  candidates := hroster.candidates
  readable := hroster.readable
  straight hrun := by
    refine ⟨h.sound.tree, ?_, h.straight ?_⟩
    · rw [Tree.start]
      split
      · rfl
      · exact h.here
    · by_contra hnot
      rw [nextRun?, if_neg hnot] at hrun
      cases hrun

theorem Opening.minds {state : RunState}
    (h : Opening (faulty settings faults) templateName state w run? s) :
    Minds settings run? (World.runName (w.runs + 1)) [] s.memory.backups := by
  cases h with
  | plain => exact ⟨rfl, rfl, fun _ => rfl, fun run hrun => by cases hrun⟩
  | backed =>
      refine ⟨rfl, rfl, fun hnone => (by cases hnone), fun run hrun => ?_⟩
      exact ⟨(Option.some.inj hrun).symm, _, Backups.lookup_setRun _ _ _, rfl, rfl⟩

/-- Where a run stands before its first file. -/
theorem Opening.begins {state : RunState} {w₁ : World}
    (h : Opening (faulty settings faults) templateName state w₁ run? s) (hloaded : Idle w w₁)
    (hruns : w₁.runs = w.runs) (hground : IsGround settings w) :
    run? = nextRun? settings w ∧ Idle w s.world ∧ Cautious run? s ∧
      Minds settings run? (World.runName (w.runs + 1)) [] s.memory.backups := by
  have hrun? : run? = nextRun? settings w := by
    rw [nextRun?, ← hruns]
    exact h.run?_eq
  have hminds := h.minds
  rw [hruns] at hminds
  have hknown := hground.last.lastKnown
  rw [← hloaded.here, ← hloaded.tree] at hknown
  exact ⟨hrun?, hloaded.trans h.idle, (h.cautious hknown).1, hminds⟩

/-- A run is not cancelled, and every manifest is written that is to be written. -/
structure Finishes (settings : Settings) (faults : Faults) (templatePath : Path) (paths : List Path)
    (state : RunState) (w : World) (result : Except Failure RunSummary) (w' : World) : Prop where
  ran : ∃ final, (run (faulty settings faults) templatePath paths state).run w =
    ((result, final), w') ∧ final.cancelled = false
  persists : ∃ events, w'.trace = w.trace ++ events ∧
    Persists settings.backupRoot w.here w.tag (World.runName (w.runs + 1)) w.tree events
  writable : result ≠ .error .unwritable

/-- A run that approves everything and finishes takes its files one after another and ends its
backups. -/
theorem Finishes.exists_turns {templatePath : Path} {state : RunState} {w' : World}
    {result : Except Failure RunSummary}
    (h : Finishes settings faults templatePath paths state w result w')
    (hground : IsGround settings w) (hroster : IsRoster settings w all)
    (hpaths : ∀ path ∈ paths, path ∈ all) (hdistinct : (paths.map (place w.here)).Nodup)
    (htemplate : ((loadTemplate (faulty settings faults).storage templatePath).run.run w).1 =
      .ok template)
    (hmode : state.mode = .autoApplyAll) :
    ∃ summary u turns, result = .ok summary ∧
      Turns settings faults template templatePath.name (nextRun? settings w) w.here
        (World.runName (w.runs + 1)) paths all w.tree u turns ∧
      summary.outcomes = turns.filterMap (·.outcome?) ∧
      Ends settings.backupRoot w.here (World.runName (w.runs + 1)) (turns.filterMap (·.listed?)) u
        w'.tree summary.manifest? := by
  obtain ⟨⟨final, hrun, hrunning⟩, ⟨events, hevents, hpersists⟩, hwritable⟩ := h
  have hs := overDisk_faulty settings faults
  rcases run_cases (faulty settings faults) templatePath paths state w with
    ⟨e, w₁, hload, -⟩ | ⟨read, w₁, run?, s₀, visits, visited, s₁, closed, s₂, result', s₃, hload,
      hopening, htour, hclose, hconclusion, hrun'⟩
  · rw [hload] at htemplate
    cases htemplate
  · rw [hload] at htemplate
    obtain rfl := Except.ok.inj htemplate
    obtain ⟨hresult, rfl⟩ := Prod.mk.inj (hrun.symm.trans hrun')
    obtain ⟨rfl, rfl⟩ := Prod.mk.inj hresult
    have hloaded := idle_loadTemplate hs templatePath w
    have hruns := loadTemplate_runs hs templatePath w
    rw [hload] at hloaded hruns
    obtain ⟨rfl, hopened, hcautious, hminds⟩ := hopening.begins hloaded hruns hground
    obtain ⟨hstate, houtcomes, hroot, hkeeps, -⟩ := hopening.memory
    obtain ⟨beginning, hbegun⟩ : ∃ events, Trail w events s₀.world := hopened.imp fun _ => And.left
    obtain ⟨⟨visiting, hvisiting⟩, hturns⟩ := htour.exists_turns hkeeps
    obtain ⟨hkeeps₁, hroot₁⟩ := htour.keeps rfl hs hkeeps
    obtain ⟨ending, hending, -, hstate₂, houtcomes₂, -⟩ := close_trail hkeeps₁
    rw [hclose] at hending hstate₂ houtcomes₂
    obtain ⟨-, ⟨last, hlastTrail, -⟩, -⟩ := hconclusion.cases
    have hleads := htour.leads FrontEnd.isQuiet_scripted hs (hopened.isSound hground.sound) hcautious
      fun path hpath => (hroster.candidates path (hpaths path hpath)).isProper
    have htrail := hbegun.trans (hvisiting.trans (hending.trans hlastTrail))
    obtain rfl := List.append_cancel_left (hevents.symm.trans htrail.trace)
    have hrecorded : Recorded settings.backupRoot (World.runName (w.runs + 1)) w s₃.world :=
      ⟨_, htrail, hpersists⟩
    obtain ⟨-, hrecorded₀⟩ := hrecorded.split hbegun (hvisiting.trans (hending.trans hlastTrail))
    obtain ⟨hrecorded₁, hrecorded₂⟩ := hrecorded₀.split hvisiting (hending.trans hlastTrail)
    have hnamed : ∀ name, nextRun? settings w = some name → name = World.runName (w.runs + 1) :=
      fun name hname => (hminds.lists name hname).1
    rcases close_ends hkeeps₁ (hroot₁.trans hroot) hnamed hclose (hrecorded₂.split hending hlastTrail).1
      with rfl | ⟨manifest?, rfl, hends⟩
    · cases hconclusion
      exact absurd rfl hwritable
    · cases hconclusion with
      | failed e =>
          obtain ⟨rfl, -⟩ := htour.exists_failure rfl hs hkeeps rfl
          exact absurd rfl hwritable
      | finished manifest? level text =>
          have hfield := hground.field hroster
          rw [← hopened.here, ← hopened.tree] at hfield
          obtain ⟨turns, hturns', houtcomes', hminds'⟩ := hturns rfl (by rw [← hstate₂]; exact hrunning)
            (by rw [hstate]; exact hmode) _ all [] hfield hpaths (by rw [hopened.here]; exact hdistinct)
            hminds (fun entry hentry => by cases hentry) hrecorded₁
          rw [List.nil_append] at hminds'
          have hends' := hends _ hminds' hleads.cautious fun hname => by
            rw [hleads.here]
            exact (hfield.changes hturns'.wakes).straight hname
          rw [hleads.here, hopened.here] at hends'
          rw [hopened.here, hopened.tree] at hturns'
          rw [houtcomes, List.nil_append] at houtcomes'
          exact ⟨_, s₁.world.tree, turns, rfl, hturns', houtcomes₂.trans houtcomes', hends'⟩

/-! ## Two runs -/

theorem Ends.spares {root : Path} {manifest? : Option Path}
    (h : Ends root here id entries t u₁ manifest?) : Spares (IsEnded root here id) t u₁ := by
  cases h with
  | idle _ hsame =>
      subst hsame
      exact .refl _
  | kept _ _ _ _ hspares => exact hspares

theorem Field.not_isEnded (h : Field settings run? here id paths t) {path : Path}
    (hpath : path ∈ paths) :
    ¬ IsEnded settings.backupRoot here id
      (shelf settings.backupRoot here id (behind settings here path)) := by
  obtain ⟨-, hsource⟩ := h.source hpath
  rintro (heq | heq | ⟨other, hne, hstarts⟩)
  · exact hsource.ne_manifest (List.cons.inj (List.append_cancel_left heq)).2
  · exact Backups.shelf_ne_lastLoc h.ne_last heq
  · have hsame := (List.prefix_append_right_inj _).mp hstarts
    rw [List.cons_prefix_cons] at hsame
    exact hne hsame.1

/-- What a run lists for a file lies where the copy of the file is made. -/
theorem Field.place_backup (h : Field settings run? here id paths t)
    (hsite : settings.siteRoot.IsProper) {path : Path} (hpath : path ∈ paths) :
    place here (Path.ofText (entryFor settings.backupRoot here settings.siteRoot id path).backup) =
      shelf settings.backupRoot here id (behind settings here path) := by
  obtain ⟨hplace, hsource⟩ := h.source hpath
  rw [(entryFor_eq settings.backupRoot h.isName hplace).2,
    hsource.ofText_backup (Path.isProper_child hsite _) h.isName, hsource.place_kept h.isName]
  rfl

/-- The manifest lies at the path. -/
def Lies (here : Loc) (path : Path) (m : Manifest) (t : Tree) : Prop :=
  ∃ bytes, Json.writeBytes? m.toJson = some bytes ∧ t.bytes? (place here path) = some bytes

/-- Of two runs that have listed the same entries both write a manifest or neither does. -/
theorem Ends.alike {root : Path} {entries₁ entries₂ : List BackupEntry}
    {manifest₁? manifest₂? : Option Path} (h₁ : Ends root here id entries₁ t₁ u₁ manifest₁?)
    (h₂ : Ends root here id entries₂ t₂ u₂ manifest₂?) (hentries : entries₁.Perm entries₂) :
    manifest₁? = none ∧ manifest₂? = none ∨
      ∃ path m₁ m₂, manifest₁? = some path ∧ manifest₂? = some path ∧ Lies here path m₁ u₁ ∧
        Lies here path m₂ u₂ ∧ m₁.entries = entries₁ ∧ m₂.entries = entries₂ := by
  cases h₁ with
  | idle hnone =>
      subst hnone
      cases h₂ with
      | idle => exact Or.inl ⟨rfl, rfl⟩
      | kept _ hsome => exact absurd hentries.nil_eq.symm hsome
  | @kept m₁ bytes₁ hentries₁ hsome hwritten₁ hlies₁ =>
      cases h₂ with
      | idle hnone =>
          subst hnone
          exact absurd hentries.eq_nil hsome
      | @kept m₂ bytes₂ hentries₂ _ hwritten₂ hlies₂ =>
          rw [lastLoc, ← Backups.place_lastPath] at hlies₁ hlies₂
          exact Or.inr ⟨_, m₁, m₂, rfl, rfl, ⟨bytes₁, hwritten₁, hlies₁⟩, ⟨bytes₂, hwritten₂, hlies₂⟩,
            hentries₁, hentries₂⟩

/-- Two runs over the same files in different orders have come to the same. -/
structure Alike (settings : Settings) (w : World) (paths paths' : List Path) (w₁ w₂ : World)
    (summary₁ summary₂ : RunSummary) : Prop where
  /-- Files outside the backup root hold the same. -/
  files : ∀ loc, ¬ place w.here settings.backupRoot <+: loc →
    w₁.tree.bytes? loc = w₂.tree.bytes? loc
  /-- Each path has the same outcome, or none. -/
  outcomes : ∃ outcome? : Path → Option Outcome,
    (∀ path outcome, outcome? path = some outcome → outcome.path = settings.display path) ∧
    summary₁.outcomes = paths.filterMap outcome? ∧ summary₂.outcomes = paths'.filterMap outcome?
  /-- The manifests, if any, list the same entries, and the copies hold the same. -/
  manifests : summary₁.manifest? = none ∧ summary₂.manifest? = none ∨
    ∃ path m₁ m₂, summary₁.manifest? = some path ∧ summary₂.manifest? = some path ∧
      Lies w.here path m₁ w₁.tree ∧ Lies w.here path m₂ w₂.tree ∧ m₁.entries.Perm m₂.entries ∧
      ∀ entry ∈ m₁.entries, w₁.tree.bytes? (place w.here (Path.ofText entry.backup)) =
        w₂.tree.bytes? (place w.here (Path.ofText entry.backup))

/-- A run that approves everything does the same in whatever order it goes over its files. -/
theorem run_alike {templatePath : Path} {state : RunState} {w₁ w₂ : World}
    {result₁ result₂ : Except Failure RunSummary} (hground : IsGround settings w)
    (hsite : settings.siteRoot.IsProper) (hroster : IsRoster settings w paths)
    (hperm : paths.Perm paths')
    (htemplate : ((loadTemplate (faulty settings faults).storage templatePath).run.run w).1 =
      .ok template)
    (hmode : state.mode = .autoApplyAll)
    (h₁ : Finishes settings faults templatePath paths state w result₁ w₁)
    (h₂ : Finishes settings faults templatePath paths' state w result₂ w₂) :
    ∃ summary₁ summary₂, result₁ = .ok summary₁ ∧ result₂ = .ok summary₂ ∧
      Alike settings w paths paths' w₁ w₂ summary₁ summary₂ := by
  obtain ⟨summary₁, u₁, turns₁, rfl, hturns₁, houtcomes₁, hends₁⟩ := h₁.exists_turns hground hroster
    (fun path hpath => hpath) hroster.distinct htemplate hmode
  obtain ⟨summary₂, u₂, turns₂, rfl, hturns₂, houtcomes₂, hends₂⟩ := h₂.exists_turns hground hroster
    (fun path hpath => hperm.mem_iff.mpr hpath) ((hperm.map _).nodup_iff.mp hroster.distinct) htemplate
    hmode
  have hfield := hground.field hroster
  have hturns : (turns₁.map (·.path)).Perm (turns₂.map (·.path)) := by
    rw [hturns₁.paths_eq, hturns₂.paths_eq]
    exact hperm
  have halike := fun turn₁ (hmem₁ : turn₁ ∈ turns₁) turn₂ (hmem₂ : turn₂ ∈ turns₂) hpath =>
    hfield.turns_alike hturns₁ hturns₂ hmem₁ hmem₂ hpath
      (hturns₁.paths_eq ▸ List.mem_map_of_mem hmem₁)
  obtain ⟨hspots, houtside⟩ := hfield.bytes?_alike hturns₁ hturns₂ hperm fun path hpath => hpath
  refine ⟨summary₁, summary₂, rfl, rfl, ?_⟩
  constructor
  case files =>
    intro loc hloc
    have hnot : ¬ IsEnded settings.backupRoot w.here (World.runName (w.runs + 1)) loc :=
      fun hended => hloc hended.within
    rw [hends₁.spares loc hnot, hends₂.spares loc hnot, houtside loc hloc]
  case outcomes =>
    obtain ⟨outcome?, hfrom, heq₁, heq₂⟩ := exists_common (·.outcome?) hturns
      fun turn₁ hmem₁ turn₂ hmem₂ hpath => (halike turn₁ hmem₁ turn₂ hmem₂ hpath).1
    refine ⟨outcome?, fun path outcome houtcome => ?_, ?_, ?_⟩
    · obtain ⟨turn, hmem, rfl, hturn⟩ := hfrom path outcome houtcome
      have hcomes := (hturns₁.among turn hmem).comes
      rw [hturn] at hcomes
      exact hcomes.path_eq
    · rw [houtcomes₁, heq₁, hturns₁.paths_eq]
    · rw [houtcomes₂, heq₂, hturns₂.paths_eq]
  case manifests =>
    obtain ⟨listed?, -, heq₁, heq₂⟩ := exists_common (·.listed?) hturns
      fun turn₁ hmem₁ turn₂ hmem₂ hpath => (halike turn₁ hmem₁ turn₂ hmem₂ hpath).2.1
    have hentries : (turns₁.filterMap (·.listed?)).Perm (turns₂.filterMap (·.listed?)) := by
      rw [heq₁, heq₂]
      exact hturns.filterMap listed?
    refine (hends₁.alike hends₂ hentries).imp_right ?_
    rintro ⟨path, m₁, m₂, hmanifest₁, hmanifest₂, hlies₁, hlies₂, hlisted₁, hlisted₂⟩
    refine ⟨path, m₁, m₂, hmanifest₁, hmanifest₂, hlies₁, hlies₂, by rwa [hlisted₁, hlisted₂], ?_⟩
    intro entry hentry
    rw [hlisted₁] at hentry
    obtain ⟨turn, hmem, hturn⟩ := List.mem_filterMap.mp hentry
    have hpath : turn.path ∈ paths := hturns₁.paths_eq ▸ List.mem_map_of_mem hmem
    obtain rfl := (hturns₁.among turn hmem).comes.eq_entryFor hturn
    rw [hfield.place_backup hsite hpath, hends₁.spares _ (hfield.not_isEnded hpath),
      hends₂.spares _ (hfield.not_isEnded hpath), hspots turn.path hpath _ (Or.inr rfl)]

end Run

/-! ## A way back through a directory that is not there

Two pages of one template, and a file that is called like no page. -/

namespace Run.TwoOrders

def template : Text := Text.concat ["<html><body><!-- TemplateBeginEditable name=\"r\" -->new",
  "<!-- TemplateEndEditable --></body></html>"]

def page : Text := Text.concat ["<html><!-- InstanceBegin template=\"/t.dwt\" -->",
  "<!-- InstanceBeginEditable name=\"r\" -->own<!-- InstanceEndEditable --></html>"]

def file (name : Text) : Path := ⟨.slash, ["s", name]⟩

def world : World :=
  World.make ⟨[(["s"], .dir), (["s", "t.dwt"], .file template.encode),
    (["s", "a.html"], .file page.encode), (["s", "c.html"], .file page.encode),
    (["s", "f"], .file [])]⟩ [] "1"

def settings (backupDirName : Text) : Settings :=
  { Settings.default ⟨.slash, ["s"]⟩ with backupDirName }

def files : List Path := [file "a.html", file "c.html"]

def finished (settings : Settings) (faults : Faults) (paths : List Path) :
    (Except Failure RunSummary × RunState) × World :=
  (run (faulty settings faults) (file "t.dwt") paths ⟨.autoApplyAll, false⟩).run world

/-- What a run tells about its files. -/
def told : Except Failure RunSummary → List (Text × FileStatus × Text)
  | .ok summary => summary.outcomes.map fun o => (o.path, o.status, o.message)
  | .error _ => []

theorem isSound_world : world.IsSound :=
  ⟨Tree.wellFormed_of_nodes (by decide +kernel), fun part hpart => by cases hpart⟩

theorem isRoster {backupDirName : Text}
    (houtside : ∀ path ∈ files, ¬ place world.here (settings backupDirName).backupRoot <+:
      place world.here path) : IsRoster (settings backupDirName) world files := by
  have hbelow : ∀ path ∈ files, path.IsProper ∧ path.parts ≠ [] ∧
      ∃ name, name ≠ Backups.manifestName (World.runName (world.runs + 1)) ∧
        place world.here path = (["s", name] : Loc) := by
    refine List.forall_mem_cons.mpr ⟨⟨by decide, by decide, "a.html", by decide +kernel, rfl⟩, ?_⟩
    exact List.forall_mem_singleton.mpr ⟨by decide, by decide, "c.html", by decide +kernel, rfl⟩
  have hread : ∀ path ∈ files, world.tree.read world.here path = .ok page.encode := by decide +kernel
  refine ⟨fun path hpath => ?_, fun path hpath => ⟨_, hread path hpath⟩, by decide⟩
  obtain ⟨hproper, hnamed, name, hname, hplace⟩ := hbelow path hpath
  refine ⟨hproper, hnamed, ⟨[name], List.cons_ne_nil _ _, fun heq => ?_, hplace⟩, houtside path hpath⟩
  exact hname (List.cons.inj heq).1

/-- The last manifest is not there. -/
theorem lastWritten {root : Path}
    (hnone : world.tree.bytes? (place world.here (lastPath root)) = none) : LastWritten root world := by
  intro bytes hbytes
  cases hnone.symm.trans hbytes

/-- What a run does that finishes. -/
def IsDone (settings : Settings) (faults : Faults) (paths : List Path)
    (outcomes : List (Text × FileStatus × Text)) : Prop :=
  told (finished settings faults paths).1.1 = outcomes ∧ outcomes ≠ [] ∧
    (finished settings faults paths).1.2.cancelled = false ∧
    Persists settings.backupRoot world.here world.tag (World.runName (world.runs + 1)) world.tree
      (finished settings faults paths).2.trace

instance (settings : Settings) (faults : Faults) (paths : List Path)
    (outcomes : List (Text × FileStatus × Text)) :
    Decidable (IsDone settings faults paths outcomes) :=
  inferInstanceAs (Decidable (_ ∧ _ ∧ _ ∧ _))

theorem IsDone.finishes {settings : Settings} {faults : Faults} {paths : List Path}
    {outcomes : List (Text × FileStatus × Text)} (h : IsDone settings faults paths outcomes) :
    Finishes settings faults (file "t.dwt") paths ⟨.autoApplyAll, false⟩ world
      (finished settings faults paths).1.1 (finished settings faults paths).2 where
  ran := ⟨_, rfl, h.2.2.1⟩
  persists := ⟨_, rfl, h.2.2.2⟩
  writable heq := by
    have htold := h.1
    rw [heq] at htold
    exact h.2.1 htold.symm

def copyFault : Faults := ⟨[], [], [(file "c.html").text]⟩

theorem isDone_copyFault :
    IsDone (settings "k") copyFault files [("a.html", .applied, []),
      ("c.html", .ioFailed, "injected copy failure: /s/c.html")] ∧
    IsDone (settings "k") copyFault files.reverse
      [("c.html", .ioFailed, "injected copy failure: /s/c.html"), ("a.html", .applied, [])] := by
  rw [settings, Settings.default, copyFault, files, IsDone, IsDone, finished, finished, world, template,
    page]
  repeat rw [Text.ofString_ofList]
  decide +kernel

def back : Text := "x/../f"

theorem isDone_back :
    IsDone (settings back) ⟨[], [], []⟩ files
      [("a.html", .ioFailed, "[Errno 17] File exists: '/s/x/../f'"),
        ("c.html", .ioFailed, Text.concat ["[Errno 20] Not a directory: '/s/x/../f/",
          World.runName 1, "'"])] ∧
    IsDone (settings back) ⟨[], [], []⟩ files.reverse
      [("c.html", .ioFailed, "[Errno 17] File exists: '/s/x/../f'"),
        ("a.html", .ioFailed, Text.concat ["[Errno 20] Not a directory: '/s/x/../f/",
          World.runName 1, "'"])] := by
  rw [settings, Settings.default, back, files, IsDone, IsDone, finished, finished, world, template, page]
  repeat rw [Text.ofString_ofList]
  decide +kernel

theorem exists_template (settings : Settings) (faults : Faults)
    (h : ((loadTemplate (faulty settings faults).storage (file "t.dwt")).run.run world).1.isOk = true) :
    ∃ read, ((loadTemplate (faulty settings faults).storage (file "t.dwt")).run.run world).1 =
      .ok read := by
  rcases hload : ((loadTemplate (faulty settings faults).storage (file "t.dwt")).run.run world).1 with
    e | read
  · rw [hload] at h
    cases h
  · exact ⟨read, rfl⟩

/-- One of two pages cannot be copied. -/
theorem run_alike_copyFault : IsDone (settings "k") copyFault files [("a.html", .applied, []),
      ("c.html", .ioFailed, "injected copy failure: /s/c.html")] ∧
    ∃ summary₁ summary₂, (finished (settings "k") copyFault files).1.1 = .ok summary₁ ∧
      (finished (settings "k") copyFault files.reverse).1.1 = .ok summary₂ ∧
      Alike (settings "k") world files files.reverse (finished (settings "k") copyFault files).2
        (finished (settings "k") copyFault files.reverse).2 summary₁ summary₂ := by
  obtain ⟨hdone₁, hdone₂⟩ := isDone_copyFault
  obtain ⟨read, htemplate⟩ := exists_template (settings "k") copyFault (by decide +kernel)
  refine ⟨hdone₁, ?_⟩
  exact run_alike ⟨isSound_world, rfl, lastWritten (by decide +kernel), fun _ =>
      Tree.not_isDetour_of_not_mem (by decide)⟩ (by decide) (isRoster (by decide +kernel))
    (List.reverse_perm files).symm htemplate rfl hdone₁.finishes hdone₂.finishes

/-- Outcomes that are the same for the same paths are told alike. -/
theorem told_perm {settings : Settings} {w₁ w₂ : World} {summary₁ summary₂ : RunSummary}
    (h : Alike settings world files files.reverse w₁ w₂ summary₁ summary₂) :
    (told (.ok summary₁)).Perm (told (.ok summary₂)) := by
  obtain ⟨outcome?, -, houtcomes₁, houtcomes₂⟩ := h.outcomes
  rw [told, told, houtcomes₁, houtcomes₂]
  exact ((List.reverse_perm files).symm.filterMap outcome?).map _

/-- Only the way to the backup root turns back in a directory that is not there, and the two runs fail
at one file in different words. -/
theorem not_alike_back : world.IsSound ∧ world.tree.node? world.here = some .dir ∧
    LastWritten (settings back).backupRoot world ∧ (settings back).siteRoot.IsProper ∧
    IsRoster (settings back) world files ∧ files.Perm files.reverse ∧
    (∃ read, ((loadTemplate (faulty (settings back) ⟨[], [], []⟩).storage (file "t.dwt")).run.run
      world).1 = .ok read) ∧
    IsDone (settings back) ⟨[], [], []⟩ files
      [("a.html", .ioFailed, "[Errno 17] File exists: '/s/x/../f'"),
        ("c.html", .ioFailed, Text.concat ["[Errno 20] Not a directory: '/s/x/../f/",
          World.runName 1, "'"])] ∧
    IsDone (settings back) ⟨[], [], []⟩ files.reverse
      [("c.html", .ioFailed, "[Errno 17] File exists: '/s/x/../f'"),
        ("a.html", .ioFailed, Text.concat ["[Errno 20] Not a directory: '/s/x/../f/",
          World.runName 1, "'"])] ∧
    ∀ summary₁ summary₂, (finished (settings back) ⟨[], [], []⟩ files).1.1 = .ok summary₁ →
      (finished (settings back) ⟨[], [], []⟩ files.reverse).1.1 = .ok summary₂ →
      ¬ Alike (settings back) world files files.reverse
        (finished (settings back) ⟨[], [], []⟩ files).2
        (finished (settings back) ⟨[], [], []⟩ files.reverse).2 summary₁ summary₂ := by
  obtain ⟨hdone₁, hdone₂⟩ := isDone_back
  refine ⟨isSound_world, rfl, lastWritten (by decide +kernel), by decide, isRoster (by decide +kernel),
    (List.reverse_perm files).symm, exists_template _ _ (by decide +kernel), hdone₁, hdone₂, ?_⟩
  intro summary₁ summary₂ hok₁ hok₂ halike
  have hperm := told_perm halike
  rw [← hok₁, ← hok₂, hdone₁.1, hdone₂.1] at hperm
  revert hperm
  decide +kernel

end Run.TwoOrders

end Stencil
