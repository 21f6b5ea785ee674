import Stencil.Proofs.Disk.Reach
import Stencil.Proofs.Run.Play

/-!
# What the backups of a run do

One lemma for each operation, saying everything it can do from where it stands: `persist_cases`,
`previousDir_eq`, `noteReplaced_cases`, `snapshot_cases` and `finalize_cases`. Apart from copies,
manifests and the removal of an obsolete directory they only read and keep a record. Copies are made
back one after the other, whatever becomes of each (`run_restoreAll_ok`, `run_restoreAll_error`).
-/

namespace Stencil

namespace Event

def isLog : Event → Bool
  | log _ _ => true
  | _ => false

/-- Neither changes the disk nor asks anybody. -/
def isAside : Event → Bool
  | read _ => true
  | log _ _ => true
  | _ => false

/-- The user was asked something. -/
def isAsking : Event → Bool
  | proposed _ _ => true
  | polled _ => true
  | _ => false

/-- Leaves the disk alone. -/
def isIdle : Event → Bool
  | replace _ _ => false
  | copy _ _ => false
  | removeTree _ => false
  | _ => true

theorem isIdle_of_isAside {event : Event} (h : event.isAside = true) : event.isIdle = true := by
  cases event <;> first | rfl | cases h

theorem isIdle_of_isLog {event : Event} (h : event.isLog = true) : event.isIdle = true := by
  cases event <;> first | rfl | cases h

theorem replay_of_isIdle {event : Event} (h : event.isIdle = true) (here : Loc) (tag : Text)
    (t : Tree) : event.replay here tag t = t := by
  cases event <;> first | rfl | cases h

theorem isAsking_of_isAside {event : Event} (h : event.isAside = true) : event.isAsking = false := by
  cases event <;> first | rfl | cases h

theorem isAsking_of_isLog {event : Event} (h : event.isLog = true) : event.isAsking = false := by
  cases event <;> first | rfl | cases h

end Event

theorem World.replay_of_isIdle {events : List Event} (h : ∀ event ∈ events, event.isIdle = true)
    (here : Loc) (tag : Text) (t : Tree) : World.replay here tag t events = t := by
  induction events with
  | nil => rfl
  | cons event events ih =>
      rw [World.replay, List.foldl_cons, Event.replay_of_isIdle (h event List.mem_cons_self)]
      exact ih fun event he => h event (List.mem_cons_of_mem _ he)

/-- The disk is what it was if every event has left it alone. -/
theorem Trail.tree_eq {w w' : World} {events : List Event} (h : Trail w events w')
    (hidle : ∀ event ∈ events, event.isIdle = true) : w'.tree = w.tree := by
  rw [h.tree, World.replay_of_isIdle hidle]

namespace Backups

variable {storage : Storage Sim} {root dir path : Path} {run : Text} {manifest : Manifest}
  {s : Standing Backups} {w : World}

/-! ## Manifests -/

/-- The event of a manifest being written in the directory of its run. -/
def keeps (root : Path) (manifest : Manifest) (bytes : Bytes) : Event :=
  .replace (runManifestPath root manifest.runId) bytes

/-- The event of a manifest being written as the last one. -/
def publishes (root : Path) (bytes : Bytes) : Event := .replace (lastPath root) bytes

/-- A manifest of the run is written, in its own directory or as the last one. -/
def IsManifest (root : Path) (run : Text) (event : Event) : Prop :=
  ∃ bytes, event = .replace (runManifestPath root run) bytes ∨
    event = .replace (lastPath root) bytes

theorem persist_cases (root : Path) (manifest : Manifest) (w : World) :
    (Json.writeBytes? manifest.toJson = none ∧
      (persist root manifest : Act Sim Unit).run.run w = (.error .unwritable, w)) ∨
    ∃ bytes, Json.writeBytes? manifest.toJson = some bytes ∧
      ((∃ e, (w.tree.replace w.here w.tag (runManifestPath root manifest.runId) bytes).2 = .error e ∧
          (persist root manifest : Act Sim Unit).run.run w =
            (.error (.os e), w.after (keeps root manifest bytes))) ∨
        (w.tree.replace w.here w.tag (runManifestPath root manifest.runId) bytes).2 = .ok () ∧
          (persist root manifest : Act Sim Unit).run.run w =
            (((w.after (keeps root manifest bytes)).tree.replace w.here w.tag (lastPath root)
                bytes).2.mapError Failure.os,
              (w.after (keeps root manifest bytes)).after (publishes root bytes))) := by
  unfold persist
  cases hbytes : Json.writeBytes? manifest.toJson with
  | none => exact Or.inl ⟨rfl, rfl⟩
  | some bytes =>
      refine Or.inr ⟨bytes, rfl, ?_⟩
      dsimp only
      rw [run_bind, run_os, run_replace]
      cases hkeep : (w.tree.replace w.here w.tag (runManifestPath root manifest.runId) bytes).2 with
      | error e => exact Or.inl ⟨e, rfl, rfl⟩
      | ok _ => exact Or.inr ⟨rfl, run_os _ _⟩

/-- Writing a manifest does nothing but write it, and fails only as files do or because it cannot be
written at all. -/
theorem persist_trail (root : Path) (manifest : Manifest) (w : World) :
    ∃ events, Trail w events ((persist root manifest : Act Sim Unit).run.run w).2 ∧
      (∀ event ∈ events, IsManifest root manifest.runId event) ∧
      ∀ e, ((persist root manifest : Act Sim Unit).run.run w).1 = .error e →
        e = .unwritable ∨ ∃ o, e = .os o := by
  rcases persist_cases root manifest w with
    ⟨-, hrun⟩ | ⟨bytes, -, ⟨o, -, hrun⟩ | ⟨-, hrun⟩⟩
  · rw [hrun]
    refine ⟨[], Trail.refl w, by simp, fun e he => ?_⟩
    exact Or.inl (Except.error.inj he).symm
  · rw [hrun]
    refine ⟨_, Trail.after _ _, fun event he => ?_, fun e he => ?_⟩
    · exact List.mem_singleton.mp he ▸ ⟨bytes, Or.inl rfl⟩
    exact Or.inr ⟨o, (Except.error.inj he).symm⟩
  · rw [hrun]
    refine ⟨_, (Trail.after _ _).trans (Trail.after _ _), fun event he => ?_, fun e he => ?_⟩
    · rcases List.mem_cons.mp he with rfl | he
      · exact ⟨bytes, Or.inl rfl⟩
      · exact List.mem_singleton.mp he ▸ ⟨bytes, Or.inr rfl⟩
    cases hresult : ((w.after (keeps root manifest bytes)).tree.replace w.here w.tag (lastPath root)
        bytes).2 with
    | error o =>
        rw [hresult] at he
        exact Or.inr ⟨o, (Except.error.inj he).symm⟩
    | ok _ =>
        rw [hresult] at he
        cases he

/-! ## The directory that a run makes obsolete -/

/-- The directory of another run, which the last manifest on a disk names. -/
def Obsoletes (root : Path) (run : Text) (here : Loc) (t : Tree) (dir : Path) : Prop :=
  ∃ bytes value previous, t.read here (lastPath root) = .ok bytes ∧
    Json.read? .file bytes = some value ∧ Manifest.ofJson value = .ok previous ∧
    previous.runId ≠ run ∧ dir = runDir root previous.runId

theorem lastManifest_cases (root : Path) (w : World) :
    (w.tree.isFile w.here (lastPath root) = false ∧
      (lastManifest root : Act Sim _).run.run w = (.ok none, w)) ∨
    (∃ e, (¬ ∃ bytes value manifest, w.tree.read w.here (lastPath root) = .ok bytes ∧
        Json.read? .file bytes = some value ∧ Manifest.ofJson value = .ok manifest) ∧
      (lastManifest root : Act Sim _).run.run w =
        (.error (.restore e), w.after (.read (lastPath root)))) ∨
    ∃ bytes value manifest, w.tree.read w.here (lastPath root) = .ok bytes ∧
      Json.read? .file bytes = some value ∧ Manifest.ofJson value = .ok manifest ∧
      (lastManifest root : Act Sim _).run.run w =
        (.ok (some manifest), w.after (.read (lastPath root))) := by
  have hask : (liftM (Disk.isFile (lastPath root) : Sim Bool) : Act Sim Bool).run.run w =
      (.ok (w.tree.isFile w.here (lastPath root)), w) := rfl
  rw [lastManifest, run_bind, hask]
  dsimp only
  by_cases hfile : w.tree.isFile w.here (lastPath root) = true
  · obtain ⟨hlocate, bytes, hnode⟩ := Tree.isFile_iff.mp hfile
    have hread := Tree.read_eq_ok.mpr ⟨hlocate, hnode⟩
    rw [if_pos hfile, run_bind, run_os, run_read, hread]
    dsimp only [Except.mapError]
    cases hvalue : Json.read? .file bytes with
    | none =>
        refine Or.inr (Or.inl ⟨_, ?_, rfl⟩)
        rintro ⟨bytes', value, manifest, hbytes, hvalue', -⟩
        obtain rfl := Except.ok.inj hbytes
        cases hvalue.symm.trans hvalue'
    | some value =>
        cases hmanifest : Manifest.ofJson value with
        | error reason =>
            refine Or.inr (Or.inl ⟨.malformed reason, ?_, by simp only [hmanifest]; rfl⟩)
            rintro ⟨bytes', value', manifest, hbytes, hvalue', hmanifest'⟩
            obtain rfl := Except.ok.inj hbytes
            obtain rfl := Option.some.inj (hvalue.symm.trans hvalue')
            cases hmanifest.symm.trans hmanifest'
        | ok manifest =>
            exact Or.inr (Or.inr ⟨bytes, value, manifest, rfl, hvalue, hmanifest,
              by simp only [hmanifest]; rfl⟩)
  · rw [if_neg hfile]
    exact Or.inl ⟨Bool.eq_false_iff.mpr hfile, rfl⟩

theorem toOption_eq_some {ε α : Type} {result : Except ε α} {a : α} :
    result.toOption = some a ↔ result = .ok a := by
  cases result with
  | error e => exact iff_of_false (fun h => by cases h) fun h => by cases h
  | ok a' => exact ⟨fun h => congrArg Except.ok (Option.some.inj h), fun h => h ▸ rfl⟩

/-- The last manifest on a disk, if one can be read there. -/
def found? (root : Path) (here : Loc) (t : Tree) : Option Manifest :=
  (t.read here (lastPath root)).toOption.bind fun bytes =>
    (Json.read? .file bytes).bind fun value => (Manifest.ofJson value).toOption

theorem found?_eq_some {here : Loc} {t : Tree} : found? root here t = some manifest ↔
    ∃ bytes value, t.read here (lastPath root) = .ok bytes ∧ Json.read? .file bytes = some value ∧
      Manifest.ofJson value = .ok manifest := by
  simp only [found?, Option.bind_eq_some_iff, toOption_eq_some, exists_and_left]

/-- The directory that a run makes obsolete: that of another run, which the last manifest names. -/
def obsolete? (root : Path) (run : Text) (here : Loc) (t : Tree) : Option Path :=
  (found? root here t).bind fun previous =>
    if previous.runId = run then none
    else if t.isDir here (runDir root previous.runId) then some (runDir root previous.runId) else none

theorem obsolete?_eq_some {here : Loc} {t : Tree} : obsolete? root run here t = some dir ↔
    ∃ previous, found? root here t = some previous ∧ previous.runId ≠ run ∧
      dir = runDir root previous.runId ∧ t.isDir here dir = true := by
  rw [obsolete?, Option.bind_eq_some_iff]
  refine exists_congr fun previous => and_congr_right fun _ => ?_
  by_cases hrun : previous.runId = run
  · simp [hrun]
  · by_cases hdir : t.isDir here (runDir root previous.runId) = true
    · rw [if_neg hrun, if_pos hdir, Option.some.injEq, eq_comm]
      exact ⟨fun heq => ⟨hrun, heq, heq ▸ hdir⟩, fun h => h.2.1⟩
    · rw [if_neg hrun, if_neg hdir]
      exact ⟨fun heq => (by cases heq), fun ⟨_, heq, h⟩ => absurd (heq ▸ h) hdir⟩

theorem obsoletes_of_obsolete? {here : Loc} {t : Tree} (h : obsolete? root run here t = some dir) :
    Obsoletes root run here t dir := by
  obtain ⟨previous, hfound, hrun, hdir, -⟩ := obsolete?_eq_some.mp h
  obtain ⟨bytes, value, hread, hvalue, hmanifest⟩ := found?_eq_some.mp hfound
  exact ⟨bytes, value, previous, hread, hvalue, hmanifest, hrun, hdir⟩

theorem previousDir_eq (root : Path) (run : Text) (w : World) :
    ∃ events w', (previousDir root run : Act Sim _).run.run w =
        (.ok (obsolete? root run w.here w.tree), w') ∧
      Trail w events w' ∧ ∀ event ∈ events, event.isAside = true := by
  have hread : Trail w [.read (lastPath root)] (w.after (.read (lastPath root))) := Trail.after w _
  have hnone : (∀ manifest, found? root w.here w.tree ≠ some manifest) →
      obsolete? root run w.here w.tree = none := fun hnot => by
    rw [obsolete?, Option.eq_none_iff_forall_ne_some.mpr hnot]
    rfl
  rw [previousDir, ExceptT.run_mk, StateT.run_bind]
  rcases lastManifest_cases root w with
    ⟨hfile, hlast⟩ | ⟨e, hnot, hlast⟩ | ⟨bytes, value, previous, hbytes, hvalue, hprevious, hlast⟩
  · rw [hlast, hnone]
    · exact ⟨[], w, rfl, Trail.refl w, by simp⟩
    · intro manifest hfound
      obtain ⟨bytes, -, hbytes, -⟩ := found?_eq_some.mp hfound
      obtain ⟨hlocate, hnode⟩ := Tree.read_eq_ok.mp hbytes
      exact Bool.false_ne_true (hfile.symm.trans (Tree.isFile_iff.mpr ⟨hlocate, bytes, hnode⟩))
  · rw [hlast, hnone]
    · have hlog := Trail.after (w.after (.read (lastPath root)))
        (.log .warning (Text.concat ["Ignoring unreadable previous manifest: ", e.message]))
      exact ⟨_, _, rfl, hread.trans hlog, by simp [Event.isAside]⟩
    · intro manifest hfound
      obtain ⟨bytes, value, h⟩ := found?_eq_some.mp hfound
      exact hnot ⟨bytes, value, manifest, h⟩
  · rw [hlast, obsolete?, found?_eq_some.mpr ⟨bytes, value, hbytes, hvalue, hprevious⟩,
      Option.bind_some]
    refine ⟨_, w.after (.read (lastPath root)), ?_, hread, by simp [Event.isAside]⟩
    show StateT.run (ite _ _ _) _ = _
    by_cases hrun : previous.runId = run
    · rw [if_pos hrun, if_pos hrun]
      rfl
    · rw [if_neg hrun, if_neg hrun]
      rfl

/-- What is known of the directories that runs make obsolete after one more has been looked up, unless
it was known. -/
inductive Notes (root : Path) (run : Text) (here : Loc) (t : Tree)
    (known : List (Text × Option Path)) : List (Text × Option Path) → Prop
  | same (h : (known.lookup run).isSome = true) : Notes root run here t known known
  | found (h : known.lookup run = none) (dir? : Option Path)
      (hdir : ∀ dir, dir? = some dir → Obsoletes root run here t dir) :
      Notes root run here t known ((run, dir?) :: known)

/-- What is known then. -/
def noted (root : Path) (run : Text) (here : Loc) (t : Tree) (known : List (Text × Option Path)) :
    List (Text × Option Path) :=
  if (known.lookup run).isSome then known else (run, obsolete? root run here t) :: known

theorem notes_noted (root : Path) (run : Text) (here : Loc) (t : Tree)
    (known : List (Text × Option Path)) :
    Notes root run here t known (noted root run here t known) := by
  cases hlookup : known.lookup run with
  | some dir? =>
      rw [noted, hlookup, Option.isSome_some, if_pos rfl]
      exact .same (by rw [hlookup]; rfl)
  | none =>
      rw [noted, hlookup, Option.isSome_none, if_neg Bool.false_ne_true]
      exact .found hlookup _ fun dir => obsoletes_of_obsolete?

theorem noteReplaced_cases (run : Text) (s : Standing Backups) :
    ∃ events w', play (noteReplaced run : BackupAct Sim _) s =
        (.ok (), ⟨{ s.memory with
          replaced := noted s.memory.root run s.world.here s.world.tree s.memory.replaced }, w'⟩) ∧
      Trail s.world events w' ∧ ∀ event ∈ events, event.isAside = true := by
  have hplay : play (noteReplaced run : BackupAct Sim _) s =
      play (if (s.memory.replaced.lookup run).isNone then do
          let dir ← perform (previousDir s.memory.root run)
          modify fun b => { b with replaced := (run, dir) :: b.replaced }
        else pure ()) s := rfl
  rw [hplay]
  cases hlookup : s.memory.replaced.lookup run with
  | some dir? =>
      rw [noted, hlookup, Option.isSome_some, if_pos rfl]
      exact ⟨[], s.world, rfl, Trail.refl _, by simp⟩
  | none =>
      obtain ⟨events, w', hprevious, htrail, haside⟩ := previousDir_eq s.memory.root run s.world
      have hperform : play (perform (previousDir s.memory.root run)) s =
          (.ok (obsolete? s.memory.root run s.world.here s.world.tree), ⟨s.memory, w'⟩) := by
        rw [play_perform, hprevious]
      rw [noted, hlookup, Option.isSome_none, if_neg Bool.false_ne_true, Option.isNone_none, if_pos rfl,
        play_bind_ok hperform]
      exact ⟨events, w', rfl, htrail, haside⟩

/-! ## Snapshots -/

theorem play_resolve (path : Path) (s : Standing Backups) :
    play (perform (ExceptT.lift (Disk.resolve path : Sim Path))) s =
      (.ok (Tree.resolve s.world.here path), s) := rfl

theorem play_pending (h : s.memory.runs.lookup run = some manifest) :
    play (pending run : BackupAct Sim _) s = (.ok manifest, s) := by
  rw [pending, play_bind_ok (play_get s), h]
  rfl

/-- The manifest with one more entry. -/
def listing (manifest : Manifest) (entry : BackupEntry) : Manifest :=
  { manifest with entries := manifest.entries ++ [entry] }

/-- The entry that a snapshot makes. -/
def entryFor (root : Path) (here : Loc) (site : Path) (run : Text) (path : Path) : BackupEntry :=
  ⟨(Tree.resolve here path).text,
    (location root (Tree.resolve here site) run (Tree.resolve here path)).text⟩

/-- What happens once a copy has been made: it is listed, and the manifest written. -/
theorem record_cases (run : Text) (manifest : Manifest) (entry : BackupEntry)
    (s : Standing Backups) :
    ∃ events w₁, Trail s.world events w₁ ∧ (∀ event ∈ events, event.isAside = true) ∧
      play (do
          modify (setRun run (listing manifest entry))
          log .debug ["Backed up ", entry.file, " -> ", entry.backup]
          noteReplaced run
          perform (persist s.memory.root (listing manifest entry))
          return entry) s =
        (((persist s.memory.root (listing manifest entry) : Act Sim _).run.run w₁).1.map
            fun _ => entry,
          ⟨{ setRun run (listing manifest entry) s.memory with
              replaced := noted s.memory.root run s.world.here s.world.tree s.memory.replaced },
            ((persist s.memory.root (listing manifest entry) : Act Sim _).run.run w₁).2⟩) := by
  rw [play_bind_ok (play_modify _ _), play_bind_ok (play_log _ _ _)]
  obtain ⟨events, w₁, hnote, htrail, haside⟩ := noteReplaced_cases run
    ⟨setRun run (listing manifest entry) s.memory,
      s.world.after (.log .debug (Text.concat ["Backed up ", entry.file, " -> ", entry.backup]))⟩
  rw [play_bind_ok hnote]
  refine ⟨_, w₁, (Trail.after _ _).trans htrail, ?_, ?_⟩
  · simpa [Event.isAside] using haside
  · rw [play_bind, play_perform]
    rcases (persist s.memory.root (listing manifest entry) : Act Sim _).run.run w₁ with
      ⟨result, w₂⟩
    cases result <;> rfl

/-- A snapshot of a file that is listed does nothing. Otherwise it is the copy, and if that is made the
record of it. -/
theorem snapshot_eq (storage : Storage Sim) (hrun : s.memory.runs.lookup run = some manifest)
    (path : Path) :
    (∃ entry ∈ manifest.entries, entry.file = (Tree.resolve s.world.here path).text ∧
      play (snapshot storage run path) s = (.ok entry, s)) ∨
    ∃ target, target = location s.memory.root (Tree.resolve s.world.here s.memory.site) run
        (Tree.resolve s.world.here path) ∧
      (∀ entry ∈ manifest.entries, entry.file ≠ (Tree.resolve s.world.here path).text) ∧
      ((∃ e w', (storage.copy path target).run s.world = (.error e, w') ∧
          play (snapshot storage run path) s = (.error (.os e), ⟨s.memory, w'⟩)) ∨
        ∃ w₀, (storage.copy path target).run s.world = (.ok (), w₀) ∧
        ∃ entry events w₁, entry = entryFor s.memory.root s.world.here s.memory.site run path ∧
          Trail w₀ events w₁ ∧ (∀ event ∈ events, event.isAside = true) ∧
          play (snapshot storage run path) s =
            (((persist s.memory.root (listing manifest entry) : Act Sim _).run.run w₁).1.map
                fun _ => entry,
              ⟨{ setRun run (listing manifest entry) s.memory with
                  replaced := noted s.memory.root run w₀.here w₀.tree s.memory.replaced },
                ((persist s.memory.root (listing manifest entry) : Act Sim _).run.run w₁).2⟩)) := by
  rw [snapshot, play_bind_ok (play_pending hrun), play_bind_ok (play_resolve path s)]
  cases hfind : manifest.entries.find? fun entry =>
    entry.file = (Tree.resolve s.world.here path).text with
  | some entry =>
      have hfile := List.find?_some hfind
      exact Or.inl ⟨entry, List.mem_of_find?_eq_some hfind, of_decide_eq_true hfile, rfl⟩
  | none =>
      have hunlisted : ∀ entry ∈ manifest.entries,
          entry.file ≠ (Tree.resolve s.world.here path).text := fun entry hentry heq =>
        List.find?_eq_none.mp hfind entry hentry (decide_eq_true heq)
      refine Or.inr ⟨_, rfl, hunlisted, ?_⟩
      dsimp only
      rw [play_bind_ok (play_get s), play_bind_ok (play_resolve s.memory.site s)]
      generalize htarget : location s.memory.root (Tree.resolve s.world.here s.memory.site) run
        (Tree.resolve s.world.here path) = target
      have hperform : play (perform (Act.os (storage.copy path target))) s =
          (((storage.copy path target).run s.world).1.mapError Failure.os,
            ⟨s.memory, ((storage.copy path target).run s.world).2⟩) := by
        rw [play_perform, run_os]
      rcases hcopy : (storage.copy path target).run s.world with ⟨result, w₀⟩
      rw [hcopy] at hperform
      cases result with
      | error e =>
          rw [play_bind_error hperform]
          exact Or.inl ⟨e, w₀, rfl, rfl⟩
      | ok _ =>
          rw [play_bind_ok hperform]
          obtain ⟨events, w₁, htrail, haside, hrecord⟩ := record_cases run
            manifest ⟨(Tree.resolve s.world.here path).text, target.text⟩ ⟨s.memory, w₀⟩
          refine Or.inr ⟨w₀, rfl, _, events, w₁, ?_, htrail, haside, hrecord⟩
          rw [entryFor, htarget]

/-- Through a storage over the disk the copy is refused, or it is that of the disk. -/
theorem snapshot_cases (hs : storage.OverDisk)
    (hrun : s.memory.runs.lookup run = some manifest) (path : Path) :
    (∃ entry ∈ manifest.entries, entry.file = (Tree.resolve s.world.here path).text ∧
      play (snapshot storage run path) s = (.ok entry, s)) ∨
    ∃ target, target = location s.memory.root (Tree.resolve s.world.here s.memory.site) run
        (Tree.resolve s.world.here path) ∧
      (∀ entry ∈ manifest.entries, entry.file ≠ (Tree.resolve s.world.here path).text) ∧
      ((∃ e w', play (snapshot storage run path) s = (.error (.os e), ⟨s.memory, w'⟩) ∧
          (w' = s.world ∨ (s.world.tree.copy s.world.here path target).2 = .error e ∧
            w' = s.world.after (.copy path target))) ∨
        (s.world.tree.copy s.world.here path target).2 = .ok () ∧
        ∃ entry events w₁, entry = entryFor s.memory.root s.world.here s.memory.site run path ∧
          Trail (s.world.after (.copy path target)) events w₁ ∧
          (∀ event ∈ events, event.isAside = true) ∧
          play (snapshot storage run path) s =
            (((persist s.memory.root (listing manifest entry) : Act Sim _).run.run w₁).1.map
                fun _ => entry,
              ⟨{ setRun run (listing manifest entry) s.memory with
                  replaced := noted s.memory.root run s.world.here
                    (s.world.after (.copy path target)).tree s.memory.replaced },
                ((persist s.memory.root (listing manifest entry) : Act Sim _).run.run w₁).2⟩)) := by
  refine (snapshot_eq storage hrun path).imp_right ?_
  rintro ⟨target, htarget, hunlisted, hcopied⟩
  refine ⟨target, htarget, hunlisted, ?_⟩
  rcases hs.copy_cases path target s.world with ⟨e, hrefused⟩ | hdone
  · rw [hrefused] at hcopied
    rcases hcopied with ⟨e', w', hcopy, hplay⟩ | ⟨w₀, hcopy, -⟩
    · exact Or.inl ⟨e', w', hplay, Or.inl (congrArg Prod.snd hcopy).symm⟩
    · cases (Prod.mk.inj hcopy).1
  · rw [hdone] at hcopied
    rcases hcopied with ⟨e', w', hcopy, hplay⟩ | ⟨w₀, hcopy, hrecorded⟩
    · obtain ⟨hresult, rfl⟩ := Prod.mk.inj hcopy
      exact Or.inl ⟨e', _, hplay, Or.inr ⟨hresult, rfl⟩⟩
    · obtain ⟨hresult, rfl⟩ := Prod.mk.inj hcopy
      exact Or.inr ⟨hresult, hrecorded⟩

/-- The run is under way. -/
def Has (run : Text) (b : Backups) : Prop :=
  ∃ manifest, b.runs.lookup run = some manifest ∧ manifest.runId = run

theorem lookup_setRun (run : Text) (manifest : Manifest) (b : Backups) :
    (setRun run manifest b).runs.lookup run = some manifest := by
  rw [setRun, List.lookup_cons, beq_self_eq_true]

/-- A snapshot asks nobody and leaves the run under way. It fails only as files do, or because its
manifest cannot be written at all. -/
theorem snapshot_trail (hs : storage.OverDisk) (hhas : Has run s.memory) (path : Path) :
    ∃ events, Trail s.world events (play (snapshot storage run path) s).2.world ∧
      (∀ event ∈ events, event.isAsking = false) ∧
      Has run (play (snapshot storage run path) s).2.memory ∧
      (play (snapshot storage run path) s).2.memory.root = s.memory.root ∧
      ∀ e, (play (snapshot storage run path) s).1 = .error e → e = .unwritable ∨ ∃ o, e = .os o := by
  obtain ⟨manifest, hlookup, hid⟩ := hhas
  rcases snapshot_cases hs hlookup path with
    ⟨entry, -, -, hplay⟩ | ⟨target, -, -, ⟨o, w', hplay, hw'⟩ |
      ⟨-, entry, events, w₁, -, htrail, haside, hplay⟩⟩
  · rw [hplay]
    exact ⟨[], Trail.refl _, by simp, ⟨manifest, hlookup, hid⟩, rfl, fun e he => by cases he⟩
  · have hevents : ∃ events, Trail s.world events w' ∧ ∀ event ∈ events, event.isAsking = false := by
      rcases hw' with rfl | ⟨-, rfl⟩
      · exact ⟨[], Trail.refl _, by simp⟩
      · exact ⟨_, Trail.after _ _, by simp [Event.isAsking]⟩
    obtain ⟨events, htrail, hevents⟩ := hevents
    rw [hplay]
    exact ⟨events, htrail, hevents, ⟨manifest, hlookup, hid⟩, rfl,
      fun e he => Or.inr ⟨o, (Except.error.inj he).symm⟩⟩
  · obtain ⟨writes, hwrites, hmanifests, hfails⟩ :=
      persist_trail s.memory.root (listing manifest entry) w₁
    rw [hplay]
    refine ⟨_, ((Trail.after _ _).trans htrail).trans hwrites, fun event he => ?_,
      ⟨listing manifest entry, lookup_setRun run _ _, hid⟩, rfl, fun e he => hfails e ?_⟩
    · rcases List.mem_append.mp he with he | he
      · rcases List.mem_append.mp he with he | he
        · rw [List.mem_singleton.mp he]
          rfl
        · exact Event.isAsking_of_isAside (haside event he)
      · obtain ⟨bytes, rfl | rfl⟩ := hmanifests event he <;> rfl
    · dsimp only at he
      cases hresult : ((persist s.memory.root (listing manifest entry) : Act Sim _).run.run w₁).1 with
      | error e' =>
          rw [hresult] at he
          exact congrArg Except.error (Except.error.inj he)
      | ok _ =>
          rw [hresult] at he
          cases he

/-! ## Endings -/

theorem play_prune (dir : Path) (s : Standing Backups) :
    ∃ level text, play (prune dir) s =
      (.ok (), ⟨s.memory, (s.world.after (.removeTree dir)).after (.log level text)⟩) := by
  have hremove : play (perform (ExceptT.lift (Disk.removeTree dir : Sim _))) s =
      (.ok (s.world.tree.removeTree s.world.here dir).2,
        ⟨s.memory, s.world.after (.removeTree dir)⟩) := rfl
  rw [prune, play_bind_ok hremove]
  cases (s.world.tree.removeTree s.world.here dir).2 with
  | error e => exact ⟨_, _, rfl⟩
  | ok _ => exact ⟨_, _, rfl⟩

/-- The end of a run writes its manifest once more, and removes the directory made obsolete. -/
theorem finalize_eq (hrun : s.memory.runs.lookup run = some manifest) :
    ∃ result w₁, (persist s.memory.root manifest : Act Sim _).run.run s.world = (result, w₁) ∧
      ((∃ e, result = .error e ∧
          play (finalize run) s = (.error e, ⟨dropRun run s.memory, w₁⟩)) ∨
        result = .ok () ∧ ∃ logs w₂, (∀ event ∈ logs, event.isLog = true) ∧
          Trail w₁ ((s.memory.replaced.lookup run).join.toList.map .removeTree ++ logs) w₂ ∧
          play (finalize run) s = (.ok (lastPath s.memory.root),
            ⟨dropReplaced run (dropRun run s.memory), w₂⟩)) := by
  rw [finalize, play_bind_ok (play_get s), hrun]
  dsimp only
  rw [play_bind_ok (play_modify _ _)]
  rcases hpersist : (persist s.memory.root manifest : Act Sim _).run.run s.world with ⟨result, w₁⟩
  refine ⟨result, w₁, rfl, ?_⟩
  cases result with
  | error e =>
      refine Or.inl ⟨e, rfl, play_bind_error ?_ _⟩
      rw [play_perform, hpersist]
  | ok _ =>
      have hperform : play (perform (persist s.memory.root manifest))
          ⟨dropRun run s.memory, s.world⟩ = (.ok (), ⟨dropRun run s.memory, w₁⟩) := by
        rw [play_perform, hpersist]
      rw [play_bind_ok hperform, play_bind_ok (play_modify _ _)]
      cases (s.memory.replaced.lookup run).join with
      | none =>
          dsimp only
          rw [play_bind_ok (play_log _ _ _), play_pure]
          exact Or.inr ⟨rfl, _, _, by simp [Event.isLog], Trail.after _ _, rfl⟩
      | some dir =>
          obtain ⟨level, text, hprune⟩ :=
            play_prune dir ⟨dropReplaced run (dropRun run s.memory), w₁⟩
          dsimp only
          rw [play_bind_ok hprune, play_bind_ok (play_log _ _ _), play_pure]
          exact Or.inr ⟨rfl, _, _, by simp [Event.isLog],
            (Trail.after _ _).trans ((Trail.after _ _).trans (Trail.after _ _)), rfl⟩

theorem finalize_cases (hrun : s.memory.runs.lookup run = some manifest) :
    ∃ result w₁, (persist s.memory.root manifest : Act Sim _).run.run s.world = (result, w₁) ∧
      ((∃ e, result = .error e ∧
          play (finalize run) s = (.error e, ⟨dropRun run s.memory, w₁⟩)) ∨
        result = .ok () ∧ ∃ events w₂, Trail w₁ events w₂ ∧
          (∀ event ∈ events, event.isLog = true ∨ ∃ dir,
            s.memory.replaced.lookup run = some (some dir) ∧ event = .removeTree dir) ∧
          play (finalize run) s = (.ok (lastPath s.memory.root),
            ⟨dropReplaced run (dropRun run s.memory), w₂⟩)) := by
  obtain ⟨result, w₁, hpersist, hends⟩ := finalize_eq hrun
  refine ⟨result, w₁, hpersist, hends.imp_right ?_⟩
  rintro ⟨hok, logs, w₂, hlogs, htrail, hplay⟩
  refine ⟨hok, _, w₂, htrail, fun event he => ?_, hplay⟩
  rcases List.mem_append.mp he with he | he
  · obtain ⟨dir, hdir, rfl⟩ := List.mem_map.mp he
    exact Or.inr ⟨dir, Option.join_eq_some_iff.mp (Option.mem_toList.mp hdir), rfl⟩
  · exact Or.inl (hlogs event he)

/-! ## Copies made back -/

section Restore

variable {e : BackupEntry} {entries : List BackupEntry} {w₁ : World}

/-- What is recorded of an entry that fails. -/
def regret (e : BackupEntry) (error : OsError) : Event :=
  .log .error (Text.concat ["Restore failed for ", e.file, ": ", error.message])

theorem run_copy_disk {source target : Path} {result : Except OsError Unit}
    (hcopy : (w.tree.copy w.here source target).2 = result) :
    ((Storage.disk : Storage Sim).copy source target).run w =
      (result, w.after (.copy source target)) := by
  rw [← hcopy]
  rfl

/-- The rest is tried where the copy has led to. -/
theorem run_restoreAll_ok
    (hcopy : (storage.copy (Path.ofText e.backup) (Path.ofText e.file)).run w = (.ok (), w₁)) :
    (restoreAll storage (e :: entries)).run w =
      (((restoreAll storage entries).run w₁).map (Prod.map Nat.succ id) id) := by
  rw [restoreAll, StateT.run_bind, hcopy]
  rfl

/-- An entry that fails is recorded and listed, and the rest is tried all the same. -/
theorem run_restoreAll_error {error : OsError}
    (hcopy : (storage.copy (Path.ofText e.backup) (Path.ofText e.file)).run w = (.error error, w₁)) :
    (restoreAll storage (e :: entries)).run w =
      (((restoreAll storage entries).run (w₁.after (regret e error))).map
        (Prod.map id (List.cons (e.file, error.message))) id) := by
  rw [restoreAll, StateT.run_bind, hcopy]
  rfl

end Restore

end Backups

end Stencil
