import Stencil.Proofs.Run.Fields
import Stencil.Proofs.Run.Reach

/-!
# One file after the other

When all changes are approved beforehand, a visit is a turn: it does to the disk it finds what comes of
its file (`Course.comes`). So a run that goes over all its files is turns taken one after another, and
before and after each of them nothing has happened but what is done for the others
(`Tour.exists_turns`).
-/

namespace Stencil

open Stencil.Tree (Puts place)
open Backups (copying entryFor kept)

namespace Run

variable {settings : Settings} {faults : Faults} {template : Template} {templateName text : Text}
  {run? : Option Text} {id : Text} {path : Path} {paths all : List Path} {t t' : Tree}
  {entries : List BackupEntry} {s s' : Standing Progress} {w : World}

/-! ## Reading and writing -/

theorem overDisk_faulty (settings : Settings) (faults : Faults) :
    (faulty settings faults).storage.OverDisk :=
  Storage.overDisk_disk.withFaults faults

theorem held_eq (path : Path) (s : Standing Progress) :
    held (faulty settings faults) path s = reading faults s.world.here s.world.tree path := by
  have hheld : held (faulty settings faults) path s =
      (((if path.text ∈ faults.read then pure (.error (Storage.refusal "read" path))
        else Disk.read path : Sim _).run (announced (faulty settings faults) path s)).1.map
          Text.decode) := rfl
  rw [hheld, reading]
  by_cases hfault : path.text ∈ faults.read
  · rw [if_pos hfault, if_pos hfault]
    rfl
  · rw [if_neg hfault, if_neg hfault]
    rfl

theorem mapError_os_inj {result result' : Except OsError Unit}
    (h : result.mapError Failure.os = result'.mapError Failure.os) : result = result' := by
  cases result with
  | ok _ =>
      cases result' with
      | ok _ => rfl
      | error e' => cases h
  | error e =>
      cases result' with
      | ok _ => cases h
      | error e' => rw [Failure.os.inj (Except.error.inj h)]

theorem mapError_os_ne_unwritable (result : Except OsError Unit) :
    result.mapError Failure.os ≠ .error .unwritable := by
  intro h
  cases result <;> cases h

theorem exists_trail_writeText {storage : Storage Sim} (hs : storage.OverDisk) (path : Path)
    (text : Text) (w : World) : ∃ events, Trail w events ((storage.writeText path text).run w).2 := by
  rcases hs.writeText_cases path text w with ⟨e, hwrite⟩ | hwrite
  · rw [hwrite]
    exact ⟨[], Trail.refl w⟩
  · rw [hwrite]
    exact ⟨_, Trail.after w _⟩

/-- A file that can be read is written, or that is refused and nothing happens. -/
theorem run_writeText (settings : Settings) (faults : Faults) (ht : w.tree.WellFormed) {bytes : Bytes}
    (hread : w.tree.read w.here path = .ok bytes) (hnamed : path.parts ≠ []) (text : Text) :
    ∃ w', ((faulty settings faults).storage.writeText path text).run w =
        (writing faults path, w') ∧
      (path.text ∈ faults.write ∧ w'.tree = w.tree ∨
        path.text ∉ faults.write ∧ Puts w.here path text.encode w.tree w'.tree) := by
  have hrun : ((faulty settings faults).storage.writeText path text).run w =
      (if path.text ∈ faults.write then pure (.error (Storage.refusal "write" path))
        else Disk.replace path text.encode : Sim _).run w := rfl
  rw [hrun, writing]
  by_cases hfault : path.text ∈ faults.write
  · rw [if_pos hfault, if_pos hfault]
    exact ⟨w, rfl, Or.inl ⟨hfault, rfl⟩⟩
  · rw [if_neg hfault, if_neg hfault, run_replace]
    obtain ⟨t', hreplace, hputs⟩ := Tree.replace_of_read ht hread hnamed w.tag text.encode
    refine ⟨_, by rw [hreplace], Or.inr ⟨hfault, ?_⟩⟩
    rw [World.after, Event.replay, hreplace]
    exact hputs

/-! ## One visit -/

/-- What the backups of a run remember once they have listed some entries. -/
structure Minds (settings : Settings) (run? : Option Text) (id : Text) (entries : List BackupEntry)
    (b : Backups) : Prop where
  root : b.root = settings.backupRoot
  site : b.site = settings.siteRoot
  plain : run? = none → entries = []
  lists : ∀ run, run? = some run → run = id ∧
    ∃ m, b.runs.lookup id = some m ∧ m.runId = id ∧ m.entries = entries

theorem Minds.keeps {progress : Progress} (h : Minds settings run? id entries progress.backups) :
    Keeps run? progress := by
  intro run hrun
  obtain ⟨rfl, m, hlookup, hrunId, -⟩ := h.lists run hrun
  exact ⟨m, hlookup, hrunId⟩

/-- A file is backed up and listed, or its copy is refused. -/
theorem snapshot_shelves (h : Field settings run? s.world.here id paths s.world.tree)
    (hpath : path ∈ paths) (hrun : run? = some id)
    (hminds : Minds settings run? id entries s.memory.backups)
    (hnew : ∀ entry ∈ entries, entry.file ≠ (Tree.resolve s.world.here path).text)
    {result : Except Failure BackupEntry} {b : Standing Backups}
    (hplay : play (Backups.snapshot (faulty settings faults).storage id path) (toBackups s) =
      (result, b)) (hresult : result ≠ .error .unwritable)
    (hrecorded : Recorded settings.backupRoot id s.world b.world) :
    (∃ e, copying faults s.world.here s.world.tree path
          (kept settings.backupRoot id (behind settings s.world.here path)) = .error e ∧
        result = .error (.os e) ∧ b.memory = s.memory.backups ∧ b.world.tree = s.world.tree) ∨
      ∃ entry, result = .ok entry ∧
        Shelved settings faults run? s.world.here id path s.world.tree b.world.tree (some entry) ∧
        Minds settings run? id (entries ++ [entry]) b.memory := by
  obtain ⟨-, m, hlookup, hrunId, rfl⟩ := hminds.lists id hrun
  obtain ⟨bytes, hread⟩ := h.readable path hpath
  rcases Backups.snapshot_takes (s := toBackups s) hminds.root hminds.site (h.straight hrun) h.isName
      h.ne_last (h.candidates path hpath).isProper (h.source hpath).1 (h.source hpath).2 hread hlookup
      hrunId hnew hplay hresult hrecorded with
    hrefused | ⟨entry, rfl, hcopy, hok, hmemory, htakes⟩
  · exact Or.inl hrefused
  · refine Or.inr ⟨_, hok, .copied hrun hread hcopy htakes, ?_⟩
    rw [hmemory]
    refine ⟨hminds.root, hminds.site, fun hnone => ?_, fun run hrun' => ⟨?_, ?_⟩⟩
    · cases hnone.symm.trans hrun
    · exact Option.some.inj (hrun'.symm.trans hrun)
    · exact ⟨Backups.listing m _, Backups.lookup_setRun id _ s.memory.backups, hrunId, rfl⟩

/-- What is approved is written behind its backup, unless the copy is refused. -/
theorem writes_write (h : Field settings run? s.world.here id paths s.world.tree)
    (hpath : path ∈ paths) (hminds : Minds settings run? id entries s.memory.backups)
    (hnew : ∀ entry ∈ entries, entry.file ≠ (Tree.resolve s.world.here path).text)
    {result : Except OsError Unit}
    (hplay : play (write (faulty settings faults) run? path text) s =
      (result.mapError Failure.os, s'))
    (hrecorded : Recorded settings.backupRoot id s.world s'.world) :
    ∃ listed?, Writes settings faults run? s.world.here id path text s.world.tree s'.world.tree result
        listed? ∧
      Minds settings run? id (entries ++ listed?.toList) s'.memory.backups := by
  rcases write_cases (faulty settings faults) run? path text s with
    ⟨run, e, b, hrun, hsnapshot, hwrite⟩ | ⟨s₁, hbacked, hwrite⟩
  · obtain ⟨rfl, -⟩ := hminds.lists run hrun
    obtain ⟨hresult, rfl⟩ := Prod.mk.inj (hwrite.symm.trans hplay)
    have hos : (.error e : Except Failure BackupEntry) ≠ .error .unwritable := fun heq =>
      mapError_os_ne_unwritable result (hresult.symm.trans (by rw [Except.error.inj heq]))
    rcases snapshot_shelves h hpath hrun hminds hnew hsnapshot hos hrecorded with
      ⟨e', hcopy, he, hmemory, htree⟩ | ⟨entry, hok, -⟩
    · obtain rfl := Except.error.inj he
      obtain rfl := mapError_os_inj (show (Except.error e').mapError Failure.os = _ from hresult)
      refine ⟨none, .refused e' hrun hcopy htree, ?_⟩
      rw [Option.toList, List.append_nil, withBackups, hmemory]
      exact hminds
    · cases hok
  · obtain ⟨hresult, rfl⟩ := Prod.mk.inj (hwrite.symm.trans hplay)
    have hbefore : ∃ listed?, Shelved settings faults run? s.world.here id path s.world.tree
          s₁.world.tree listed? ∧ Minds settings run? id (entries ++ listed?.toList) s₁.memory.backups ∧
        s₁.world.here = s.world.here := by
      rcases hbacked with ⟨hnone, rfl⟩ | ⟨run, entry, b, hrun, hsnapshot, rfl⟩
      · refine ⟨none, .plain hnone rfl, ?_, rfl⟩
        rwa [Option.toList, List.append_nil]
      · obtain ⟨rfl, -⟩ := hminds.lists run hrun
        obtain ⟨events, htrail, -⟩ := Backups.snapshot_trail (s := toBackups s)
          (overDisk_faulty settings faults) (hminds.keeps run hrun) path
        rw [hsnapshot] at htrail
        obtain ⟨events', htrail'⟩ := exists_trail_writeText (overDisk_faulty settings faults) path text
          b.world
        rcases snapshot_shelves h hpath hrun hminds hnew hsnapshot (fun hok => by cases hok)
            (hrecorded.split htrail htrail').1 with ⟨e, -, he, -⟩ | ⟨_, hok, hshelved, hminds'⟩
        · cases he
        · exact ⟨_, hshelved, hminds', htrail.here⟩
    obtain ⟨listed?, hshelved, hminds', hhere⟩ := hbefore
    have hchanges := hshelved.changes h.wellFormed
    have h' := h.changes hchanges
    obtain ⟨bytes, hread⟩ := h'.readable path hpath
    rw [← hhere] at hread
    obtain ⟨w', hwriteText, hwritten⟩ := run_writeText settings faults hchanges.wellFormed hread
      (h.candidates path hpath).named text
    rw [hwriteText] at hresult ⊢
    rw [hhere] at hwritten
    obtain rfl := mapError_os_inj hresult
    exact ⟨listed?, .shelved hshelved hwritten, hminds'⟩

theorem exists_opened (job : Job Sim) (hs : job.storage.OverDisk) (path : Path)
    (s : Standing Progress) : Idle s.world (opened job path s).world := by
  obtain ⟨reads, htrail, hreads⟩ := exists_reads hs path s
  exact ⟨reads, htrail, fun event he => hreads event he ▸ rfl⟩

/-- Once everything is approved, nothing is proposed at a file or what would be is written. -/
theorem Course.auto {job : Job Sim} (hs : job.storage.OverDisk)
    (hmode : s.memory.state.mode = .autoApplyAll) {outcome? : Option Outcome}
    (h : Course job template templateName run? path s (.ok outcome?) s') :
    (Unproposed job template templateName path (held job path s) outcome? ∧ s'.memory = s.memory ∧
        s'.world.tree = s.world.tree) ∨
      ∃ current page result s₂, held job path s = .ok current ∧
        Changes template templateName path current page ∧
        play (write job run? path (merge template page).text) (opened job path s) =
          (result.mapError Failure.os, s₂) ∧
        outcome? = some (verdict job.settings path (merge template page).changes result) ∧
        s'.memory = s₂.memory ∧ Idle s₂.world s'.world := by
  have hopened := exists_opened job hs path s
  cases h with
  | unproposed _ script level text h =>
      refine Or.inl ⟨h, rfl, ?_⟩
      have hlogged : Idle s.world ((opened job path s).world.after (.log level text)) :=
        hopened.trans (Idle.after _ rfl)
      exact (hlogged.trans (Idle.scriptedBy _ script)).tree
  | skipped _ _ s₁ level text _ _ hdecide => cases hdecide.eq_apply hmode
  | cancelled _ _ s₁ level text _ _ hdecide => cases hdecide.eq_apply hmode
  | written current page decision s₁ s₂ level text hread h _ _ hdecide hwrite =>
      cases hdecide with
      | asked hasked => cases hmode.symm.trans hasked
      | approved =>
          exact Or.inr ⟨current, page, .ok (), s₂, hread, h, hwrite, rfl, rfl, Idle.after _ rfl⟩
  | failed current page decision s₁ s₂ e script level text hread h _ _ hdecide hwrite =>
      cases hdecide with
      | asked hasked => cases hmode.symm.trans hasked
      | approved =>
          exact Or.inr ⟨current, page, .error e, s₂, hread, h, hwrite, rfl, rfl,
            (Idle.after _ rfl).trans (Idle.scriptedBy _ script)⟩

/-- Once everything is approved, a visit does what comes of its file. -/
theorem Course.comes (h : Field settings run? s.world.here id paths s.world.tree) (hpath : path ∈ paths)
    (hminds : Minds settings run? id entries s.memory.backups)
    (hnew : ∀ entry ∈ entries, entry.file ≠ (Tree.resolve s.world.here path).text)
    (hmode : s.memory.state.mode = .autoApplyAll) {outcome? : Option Outcome}
    (hcourse : Course (faulty settings faults) template templateName run? path s (.ok outcome?) s')
    (hrecorded : Recorded settings.backupRoot id s.world s'.world) :
    ∃ listed?, Comes settings faults template templateName run? s.world.here id path s.world.tree
        s'.world.tree outcome? listed? ∧
      Minds settings run? id (entries ++ listed?.toList) s'.memory.backups := by
  have hs := overDisk_faulty settings faults
  rcases hcourse.auto hs hmode with ⟨hpassed, hmemory, htree⟩ |
    ⟨current, page, result, s₂, hread, hchanges, hwrite, rfl, hmemory, hidle⟩
  · rw [held_eq] at hpassed
    refine ⟨none, .passed hpassed htree, ?_⟩
    rw [Option.toList, List.append_nil, hmemory]
    exact hminds
  · rw [held_eq] at hread
    have hopened := exists_opened (faulty settings faults) hs path s
    obtain ⟨reads, hreads, -⟩ := exists_reads hs path s
    obtain ⟨writes, hwrites, -⟩ := write_trail (s := opened (faulty settings faults) path s) hs
      hminds.keeps path (merge template page).text
    rw [hwrite] at hwrites
    have hsettled := hidle.tree
    obtain ⟨logs, hlogs, -⟩ := hidle
    have hrecorded' := ((hrecorded.split hreads (hwrites.trans hlogs)).2.split hwrites hlogs).1
    rw [← hopened.tree, ← hopened.here] at h
    obtain ⟨listed?, hwrites', hminds'⟩ := writes_write (s := opened (faulty settings faults) path s) h
      hpath hminds (by rw [hopened.here]; exact hnew) hwrite hrecorded'
    rw [hopened.tree, hopened.here, ← hsettled] at hwrites'
    rw [hmemory]
    exact ⟨listed?, .approved hread hchanges hwrites', hminds'⟩

/-! ## All visits -/

/-- What came of a file when its turn came. -/
structure Turn where
  path : Path
  before : Tree
  after : Tree
  outcome? : Option Outcome
  listed? : Option BackupEntry

/-- What came of the file came of it where it stood, and before and after that nothing has happened but
what is done for the other files. -/
structure Turn.IsAmong (settings : Settings) (faults : Faults) (template : Template)
    (templateName : Text) (run? : Option Text) (here : Loc) (id : Text) (paths : List Path)
    (t t' : Tree) (turn : Turn) : Prop where
  comes : Comes settings faults template templateName run? here id turn.path turn.before turn.after
    turn.outcome? turn.listed?
  before : Wakes settings here id (Others here paths turn.path) t turn.before
  after : Wakes settings here id (Others here paths turn.path) turn.after t'

/-- The turns of these files, one after the other, lead from one disk to the other. -/
structure Turns (settings : Settings) (faults : Faults) (template : Template) (templateName : Text)
    (run? : Option Text) (here : Loc) (id : Text) (paths all : List Path) (t t' : Tree)
    (turns : List Turn) : Prop where
  paths_eq : turns.map (·.path) = paths
  wakes : Wakes settings here id (· ∈ paths) t t'
  among : ∀ turn ∈ turns,
    turn.IsAmong settings faults template templateName run? here id all t t'

theorem Turns.cons {here : Loc} (turn : Turn) {turns : List Turn}
    (h : Field settings run? here id all turn.before) (hmem : turn.path ∈ all)
    (hcomes : Comes settings faults template templateName run? here id turn.path turn.before turn.after
      turn.outcome? turn.listed?)
    (hpaths : ∀ path ∈ paths, path ∈ all ∧ place here path ≠ place here turn.path)
    (hturns : Turns settings faults template templateName run? here id paths all turn.after t' turns) :
    Turns settings faults template templateName run? here id (turn.path :: paths) all turn.before t'
      (turn :: turns) where
  paths_eq := by rw [List.map_cons, hturns.paths_eq]
  wakes := by
    refine Tree.Changes.trans ((hcomes.wakes h.wellFormed).mono ?_) (hturns.wakes.mono ?_)
    · exact fun path hpath => List.mem_cons.mpr (Or.inl hpath)
    · exact fun path hpath => List.mem_cons_of_mem _ hpath
  among := by
    refine List.forall_mem_cons.mpr ⟨⟨hcomes, .refl h.wellFormed, hturns.wakes.mono hpaths⟩, ?_⟩
    intro later hlater
    have hother : later.path ∈ paths := hturns.paths_eq ▸ List.mem_map_of_mem hlater
    obtain ⟨hcomes', hbefore, hafter⟩ := hturns.among later hlater
    refine ⟨hcomes', Tree.Changes.trans ((hcomes.wakes h.wellFormed).mono ?_) hbefore, hafter⟩
    rintro _ rfl
    exact ⟨hmem, (hpaths _ hother).2.symm⟩

theorem Comes.eq_entryFor {here : Loc} {outcome? : Option Outcome} {listed? : Option BackupEntry}
    {entry : BackupEntry}
    (h : Comes settings faults template templateName run? here id path t t' outcome? listed?)
    (hentry : listed? = some entry) :
    entry = entryFor settings.backupRoot here settings.siteRoot id path := by
  cases h with
  | passed => cases hentry
  | approved _ _ hwrites =>
      cases hwrites with
      | refused => cases hentry
      | shelved hshelved =>
          cases hshelved with
          | plain => cases hentry
          | copied => exact (Option.some.inj hentry).symm

/-- None of these files is listed yet. -/
def IsUnlisted (here : Loc) (entries : List BackupEntry) (paths : List Path) : Prop :=
  ∀ entry ∈ entries, ∀ path ∈ paths, entry.file ≠ (Tree.resolve here path).text

/-- Files in different places are listed under different names. -/
theorem Field.resolve_ne {here : Loc} {other : Path} (h : Field settings run? here id paths t)
    (hpath : path ∈ paths) (hother : other ∈ paths) (hne : place here path ≠ place here other) :
    (Tree.resolve here path).text ≠ (Tree.resolve here other).text := by
  have hproper : ∀ path ∈ paths, (Tree.resolve here path).IsProper := fun path hpath part hpart =>
    (Tree.isName_of_mem_place h.names (h.candidates path hpath).isProper part hpart).isPart
  intro htext
  exact hne (congrArg Path.parts (Path.text_inj (hproper path hpath) (hproper other hother) htext))

/-- A call does what comes of its file. -/
theorem Account.comes {v : Visit} {outcome? : Option Outcome}
    (h : Account (faulty settings faults) template templateName run? s v)
    (hresult : v.result = .ok outcome?)
    (hfield : Field settings run? s.world.here id paths s.world.tree) (hpath : v.path ∈ paths)
    (hmode : s.memory.state.mode = .autoApplyAll)
    (hminds : Minds settings run? id entries s.memory.backups)
    (hnew : ∀ entry ∈ entries, entry.file ≠ (Tree.resolve s.world.here v.path).text)
    (hrecorded : Recorded settings.backupRoot id s.world v.after.world) :
    ∃ listed?, Comes settings faults template templateName run? s.world.here id v.path s.world.tree
        v.after.world.tree outcome? listed? ∧
      Minds settings run? id (entries ++ listed?.toList) v.after.memory.backups := by
  have hcourse := h.course
  have htree : v.before.world.tree = s.world.tree :=
    h.polled.tree_eq (List.forall_mem_singleton.mpr rfl)
  rw [hresult] at hcourse
  rw [← h.memory] at hmode hminds
  rw [← h.polled.here] at hnew
  rw [← htree, ← h.polled.here] at hfield ⊢
  exact hcourse.comes hfield hpath hminds hnew hmode (hrecorded.split h.polled h.trail).2

/-- A run that approves everything and goes over all its files is turns taken one after another. -/
theorem Tour.exists_turns {visits : List Visit} {result : Except Failure Unit}
    (h : Tour (faulty settings faults) template templateName run? s paths visits result s')
    (hkeeps : Keeps run? s.memory) :
    (∃ events, Trail s.world events s'.world) ∧
      (result = .ok () → s'.memory.state.cancelled = false → s.memory.state.mode = .autoApplyAll →
        ∀ id all entries, Field settings run? s.world.here id all s.world.tree →
          (∀ path ∈ paths, path ∈ all) → (paths.map (place s.world.here)).Nodup →
          Minds settings run? id entries s.memory.backups → IsUnlisted s.world.here entries paths →
          Recorded settings.backupRoot id s.world s'.world →
          ∃ turns, Turns settings faults template templateName run? s.world.here id paths all
              s.world.tree s'.world.tree turns ∧
            s'.memory.outcomes = s.memory.outcomes ++ turns.filterMap (·.outcome?) ∧
            Minds settings run? id (entries ++ turns.filterMap (·.listed?)) s'.memory.backups) := by
  refine Tour.rec_account rfl (overDisk_faulty settings faults) ?_ ?_ ?_ ?_ ?_ h hkeeps
  · intro s
    refine ⟨⟨[], Trail.refl _⟩, fun _ _ _ id all entries hfield _ _ hminds _ _ =>
      ⟨[], ⟨rfl, ?_, ?_⟩, ?_, ?_⟩⟩
    · exact .refl hfield.wellFormed
    · exact fun turn hturn => by cases hturn
    · exact (List.append_nil _).symm
    · rwa [List.filterMap_nil, List.append_nil]
  · intro path paths s hcancelled
    exact ⟨⟨[], Trail.refl _⟩, fun _ hrunning => by cases hcancelled.symm.trans hrunning⟩
  · intro path paths s w _ htrail
    exact ⟨⟨_, htrail⟩, fun _ hrunning => by cases hrunning⟩
  · intro paths s v haccount hends
    refine ⟨⟨_, haccount.polled.trans haccount.trail⟩, fun hresult hrunning => ?_⟩
    cases (haccount.cancelled_of_ends hends hresult).symm.trans hrunning
  · intro paths s v visits result s' haccount hgoes ih
    obtain ⟨⟨events, htrail⟩, ih⟩ := ih
    refine ⟨⟨_, haccount.polled.trans (haccount.trail.trans htrail)⟩, ?_⟩
    intro hresult hrunning hmode id all entries hfield hall hdistinct hminds hunlisted hrecorded
    obtain ⟨hrecorded₁, hrecorded₂⟩ :=
      hrecorded.split (haccount.polled.trans haccount.trail) htrail
    obtain ⟨outcome?, hvisit, -⟩ := hgoes
    have hmem := hall v.path List.mem_cons_self
    have hhere : v.after.world.here = s.world.here :=
      haccount.trail.here.trans haccount.polled.here
    obtain ⟨listed?, hcomes, hminds'⟩ := haccount.comes hvisit hfield hmem hmode hminds
      (fun entry hentry => hunlisted entry hentry v.path List.mem_cons_self) hrecorded₁
    obtain ⟨hfirst, hdistinct'⟩ := List.nodup_cons.mp hdistinct
    have hothers : ∀ path ∈ paths,
        path ∈ all ∧ place s.world.here path ≠ place s.world.here v.path := fun path hpath =>
      ⟨hall path (List.mem_cons_of_mem _ hpath), fun heq => hfirst (heq ▸ List.mem_map_of_mem hpath)⟩
    have hunlisted' : IsUnlisted s.world.here (entries ++ listed?.toList) paths := by
      refine List.forall_mem_append.mpr ⟨fun entry hentry path hpath => ?_, ?_⟩
      · exact hunlisted entry hentry path (List.mem_cons_of_mem _ hpath)
      · intro entry hentry path hpath
        obtain rfl := hcomes.eq_entryFor (Option.mem_toList.mp hentry)
        exact hfield.resolve_ne hmem (hothers path hpath).1 (hothers path hpath).2.symm
    obtain ⟨turns, hturns, houtcomes, hminds''⟩ := ih hresult hrunning
      (haccount.approved_iff.1.mpr (Or.inl hmode)) id all (entries ++ listed?.toList)
      (hhere ▸ hfield.changes (hcomes.wakes hfield.wellFormed))
      (fun path hpath => (hothers path hpath).1) (hhere ▸ hdistinct') hminds' (hhere ▸ hunlisted')
      hrecorded₂
    refine ⟨_, Turns.cons ⟨v.path, s.world.tree, v.settled.world.tree, outcome?, listed?⟩ hfield hmem
      hcomes hothers (hhere ▸ hturns), ?_, ?_⟩
    · have hsettled : v.settled.memory.outcomes = s.memory.outcomes ++ outcome?.toList := by
        rw [Visit.settled, haccount.outcomes, Visit.outcome?, hvisit]
      rw [houtcomes, hsettled, List.append_assoc]
      cases outcome? <;> rfl
    · rw [List.append_assoc] at hminds''
      cases listed? <;> exact hminds''

end Run

end Stencil
