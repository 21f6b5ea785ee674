import Stencil.Run.Basic
import Stencil.World

/-!
# Computations played in a world

A computation of a run or of its backups, in the world held in memory, is a function of where it
stands (`play`): of what it remembers and of the world around it. What it does to the world is a
list of events, and the disk is what they make of it (`Trail`). A storage that lies over the disk
does what the disk does or refuses, and then nothing has happened (`Storage.OverDisk`).
-/

namespace Stencil

namespace World

/-- The world after an event. -/
def after (w : World) (event : Event) : World :=
  { w with trace := w.trace ++ [event], tree := event.replay w.here w.tag w.tree }

/-- The world with the script further on. -/
def scriptedBy (w : World) (script : Script) : World := { w with script }

end World

/-! ## What was done to a world -/

/-- From one world to the other these events have happened, and nothing else to the disk. -/
structure Trail (w : World) (events : List Event) (w' : World) : Prop where
  trace : w'.trace = w.trace ++ events
  tree : w'.tree = World.replay w.here w.tag w.tree events
  here : w'.here = w.here
  tag : w'.tag = w.tag

namespace Trail

variable {w w' w'' : World} {events events' : List Event}

theorem refl (w : World) : Trail w [] w := ⟨(List.append_nil _).symm, rfl, rfl, rfl⟩

theorem after (w : World) (event : Event) : Trail w [event] (w.after event) := ⟨rfl, rfl, rfl, rfl⟩

theorem scriptedBy (w : World) (script : Script) : Trail w [] (w.scriptedBy script) :=
  ⟨(List.append_nil _).symm, rfl, rfl, rfl⟩

theorem trans (h : Trail w events w') (h' : Trail w' events' w'') :
    Trail w (events ++ events') w'' where
  trace := by rw [h'.trace, h.trace, List.append_assoc]
  tree := by
    rw [h'.tree, h.tree, h.here, h.tag, World.replay, World.replay, World.replay,
      List.foldl_append]
  here := h'.here.trans h.here
  tag := h'.tag.trans h.tag

end Trail

/-! ## Where a computation stands -/

/-- Where a computation stands: what it remembers, and the world around it. -/
structure Standing (σ : Type) where
  memory : σ
  world : World

/-- What comes of a computation from where it stands, and where it stands then. -/
def play {σ α : Type} (act : ExceptT Failure (StateT σ Sim) α) (s : Standing σ) :
    Except Failure α × Standing σ :=
  let ((result, memory), world) := (act.run.run s.memory).run s.world
  (result, ⟨memory, world⟩)

section Play

variable {σ α β : Type} {act : ExceptT Failure (StateT σ Sim) α} {s s' : Standing σ} {a : α}
  {e : Failure}

theorem play_pure (a : α) (s : Standing σ) :
    play (pure a : ExceptT Failure (StateT σ Sim) α) s = (.ok a, s) := rfl

theorem play_get (s : Standing σ) :
    play (get : ExceptT Failure (StateT σ Sim) σ) s = (.ok s.memory, s) := rfl

theorem play_modify (f : σ → σ) (s : Standing σ) :
    play (modify f : ExceptT Failure (StateT σ Sim) PUnit) s =
      (.ok ⟨⟩, ⟨f s.memory, s.world⟩) := rfl

theorem play_bind (act : ExceptT Failure (StateT σ Sim) α)
    (next : α → ExceptT Failure (StateT σ Sim) β) (s : Standing σ) :
    play (act >>= next) s =
      match play act s with
      | (.ok a, s') => play (next a) s'
      | (.error e, s') => (.error e, s') := by
  obtain ⟨memory, world⟩ := s
  have hrun : ((act >>= next).run.run memory).run world =
      match (act.run.run memory).run world with
      | ((.ok a, memory'), world') => ((next a).run.run memory').run world'
      | ((.error e, memory'), world') => ((.error e, memory'), world') := by
    rcases hact : (act.run.run memory).run world with ⟨⟨result, memory'⟩, world'⟩
    rw [ExceptT.run_bind, StateT.run_bind, StateT.run_bind, hact]
    cases result <;> rfl
  simp only [play]
  rw [hrun]
  rcases (act.run.run memory).run world with ⟨⟨result, memory'⟩, world'⟩
  cases result <;> rfl

/-- A computation goes on from where its first part ended. -/
theorem play_bind_ok (h : play act s = (.ok a, s'))
    (next : α → ExceptT Failure (StateT σ Sim) β) :
    play (act >>= next) s = play (next a) s' := by
  rw [play_bind, h]

/-- A failure ends a computation. -/
theorem play_bind_error (h : play act s = (.error e, s'))
    (next : α → ExceptT Failure (StateT σ Sim) β) :
    play (act >>= next) s = (.error e, s') := by
  rw [play_bind, h]

theorem run_of_play {result : Except Failure α} (h : play act s = (result, s')) :
    (act.run.run s.memory).run s.world = ((result, s'.memory), s'.world) := by
  obtain ⟨rfl, rfl⟩ := Prod.mk.inj h
  rfl

theorem play_mk {answer : StateT σ Sim (Except Failure α)} (s : Standing σ) :
    play (ExceptT.mk answer) s =
      (((answer.run s.memory).run s.world).1.1,
        ⟨((answer.run s.memory).run s.world).1.2, ((answer.run s.memory).run s.world).2⟩) := rfl

theorem run_bind_of_play {γ : Type} {result : Except Failure α} (h : play act s = (result, s'))
    (next : Except Failure α → StateT σ Sim γ) :
    ((act.run >>= next).run s.memory).run s.world =
      ((next result).run s'.memory).run s'.world := by
  rw [StateT.run_bind, StateT.run_bind, run_of_play h]
  rfl

theorem play_discard (act : ExceptT Failure (StateT σ Sim) α) (s : Standing σ) :
    play (discard act) s = ((play act s).1.map fun _ => ⟨⟩, (play act s).2) := by
  have hbind : discard act = act >>= fun _ => pure ⟨⟩ := (map_eq_pure_bind _ act)
  rw [hbind, play_bind]
  rcases play act s with ⟨result, s'⟩
  cases result <;> rfl

end Play

/-! ## Steps of a run and of its backups -/

section Act

variable {α β : Type}

theorem run_os (operation : Sim (Except OsError α)) (w : World) :
    (Act.os operation).run.run w =
      ((operation.run w).1.mapError Failure.os, (operation.run w).2) := by
  rw [Act.os, ExceptT.run_mk, StateT.run_bind]
  rcases operation.run w with ⟨result, w'⟩
  cases result <;> rfl

theorem run_bind (act : Act Sim α) (next : α → Act Sim β) (w : World) :
    (act >>= next).run.run w =
      match act.run.run w with
      | (.ok a, w') => (next a).run.run w'
      | (.error e, w') => (.error e, w') := by
  rw [ExceptT.run_bind, StateT.run_bind]
  rcases act.run.run w with ⟨result, w'⟩
  cases result <;> rfl

theorem run_read (path : Path) (w : World) :
    (Disk.read path : Sim _).run w = (w.tree.read w.here path, w.after (.read path)) := rfl

theorem run_replace (path : Path) (bytes : Bytes) (w : World) :
    (Disk.replace path bytes : Sim _).run w =
      ((w.tree.replace w.here w.tag path bytes).2, w.after (.replace path bytes)) := rfl

end Act

/-! ## The front end that follows a script -/

section Script

theorem run_confirm (summary : DiffSummary) (w : World) :
    (Sim.scripted.confirm summary).run w =
      (.ok (w.script.confirm summary).1, (w.scriptedBy (w.script.confirm summary).2).after
        (.proposed summary (w.script.confirm summary).1)) := rfl

theorem run_isCancelled (w : World) :
    Sim.scripted.isCancelled.run w =
      (w.script.isCancelled.1, (w.scriptedBy w.script.isCancelled.2).after
        (.polled w.script.isCancelled.1)) := rfl

theorem run_notify (severity : Severity) (message : Text) (w : World) :
    (Sim.scripted.notify severity message).run w =
      ((), w.scriptedBy (w.script.notify severity message)) := rfl

theorem run_progress (message : Text) (w : World) :
    (Sim.scripted.progress message).run w = ((), w.scriptedBy (w.script.report message)) := rfl

end Script

namespace Run

variable {α : Type} {s : Standing Progress}

theorem play_host (act : Sim α) (s : Standing Progress) :
    play (host act) s = (.ok (act.run s.world).1, ⟨s.memory, (act.run s.world).2⟩) := rfl

theorem play_perform (act : Act Sim α) (s : Standing Progress) :
    play (perform act) s = ((act.run.run s.world).1, ⟨s.memory, (act.run.run s.world).2⟩) := rfl

theorem play_log (level : Level) (words : List Text) (s : Standing Progress) :
    play (log level words) s =
      (.ok (), ⟨s.memory, s.world.after (.log level (Text.concat words))⟩) := rfl

/-- Where the backups of a run stand. -/
def toBackups (s : Standing Progress) : Standing Backups := ⟨s.memory.backups, s.world⟩

/-- Where a run stands once its backups stand somewhere. -/
def withBackups (s : Standing Progress) (b : Standing Backups) : Standing Progress :=
  ⟨{ s.memory with backups := b.memory }, b.world⟩

theorem play_backup (act : BackupAct Sim α) (s : Standing Progress) :
    play (backup act) s = ((play act (toBackups s)).1, withBackups s (play act (toBackups s)).2) :=
  rfl

/-- What becomes of the answer of a computation whose file operations may fail. -/
def tried {α : Type} : Except Failure α → Except Failure (Except OsError α)
  | .ok a => .ok (.ok a)
  | .error (.os e) => .ok (.error e)
  | .error e => .error e

theorem tried_of_ne {e : Failure} (h : ∀ o, e ≠ .os o) :
    tried (.error e : Except Failure α) = .error e := by
  rw [tried]
  exact h

theorem play_tryOs (act : RunAct Sim α) (s : Standing Progress) :
    play (tryOs act) s = (tried (play act s).1, (play act s).2) := by
  obtain ⟨memory, world⟩ := s
  have hrun : ((tryOs act).run.run memory).run world =
      ((tried ((act.run.run memory).run world).1.1, ((act.run.run memory).run world).1.2),
        ((act.run.run memory).run world).2) := by
    rw [tryOs, ExceptT.run_mk, StateT.run_bind, StateT.run_bind]
    rcases (act.run.run memory).run world with ⟨⟨result, memory'⟩, world'⟩
    rcases result with e | a
    · cases e <;> rfl
    · rfl
  rw [play, hrun]
  rfl

end Run

namespace Backups

variable {α : Type}

theorem play_perform (act : Act Sim α) (s : Standing Backups) :
    play (perform act) s = ((act.run.run s.world).1, ⟨s.memory, (act.run.run s.world).2⟩) := rfl

theorem play_log (level : Level) (words : List Text) (s : Standing Backups) :
    play (log level words) s =
      (.ok (), ⟨s.memory, s.world.after (.log level (Text.concat words))⟩) := rfl

end Backups

/-! ## Storages over the disk -/

/-- Every operation of the storage is that of the disk, or is refused and changes nothing. -/
structure Storage.OverDisk (storage : Storage Sim) : Prop where
  read : ∀ path w, (∃ e, (storage.read path).run w = (.error e, w)) ∨
    (storage.read path).run w = (Disk.read path : Sim _).run w
  write : ∀ path bytes w, (∃ e, (storage.write path bytes).run w = (.error e, w)) ∨
    (storage.write path bytes).run w = (Disk.replace path bytes : Sim _).run w
  copy : ∀ source target w, (∃ e, (storage.copy source target).run w = (.error e, w)) ∨
    (storage.copy source target).run w = (Disk.copy source target : Sim _).run w

namespace Storage

variable {storage : Storage Sim}

theorem overDisk_disk : (Storage.disk : Storage Sim).OverDisk :=
  ⟨fun _ _ => Or.inr rfl, fun _ _ _ => Or.inr rfl, fun _ _ _ => Or.inr rfl⟩

theorem OverDisk.withFaults (h : storage.OverDisk) (faults : Faults) :
    (storage.withFaults faults).OverDisk where
  read path w := by
    dsimp only [Storage.withFaults]
    by_cases hfault : path.text ∈ faults.read
    · rw [if_pos hfault]
      exact Or.inl ⟨_, rfl⟩
    · rw [if_neg hfault]
      exact h.read path w
  write path bytes w := by
    dsimp only [Storage.withFaults]
    by_cases hfault : path.text ∈ faults.write
    · rw [if_pos hfault]
      exact Or.inl ⟨_, rfl⟩
    · rw [if_neg hfault]
      exact h.write path bytes w
  copy source target w := by
    dsimp only [Storage.withFaults]
    by_cases hfault : source.text ∈ faults.copy
    · rw [if_pos hfault]
      exact Or.inl ⟨_, rfl⟩
    · rw [if_neg hfault]
      exact h.copy source target w

theorem OverDisk.readText_cases (h : storage.OverDisk) (path : Path) (w : World) :
    (∃ e, (storage.readText path).run w = (.error e, w)) ∨
      (storage.readText path).run w =
        ((w.tree.read w.here path).map Text.decode, w.after (.read path)) := by
  have hrun : (storage.readText path).run w =
      (((storage.read path).run w).1.map Text.decode, ((storage.read path).run w).2) := rfl
  rw [hrun]
  rcases h.read path w with ⟨e, hread⟩ | hread
  · rw [hread]
    exact Or.inl ⟨e, rfl⟩
  · rw [hread]
    exact Or.inr rfl

theorem OverDisk.writeText_cases (h : storage.OverDisk) (path : Path) (text : Text) (w : World) :
    (∃ e, (storage.writeText path text).run w = (.error e, w)) ∨
      (storage.writeText path text).run w =
        ((w.tree.replace w.here w.tag path text.encode).2, w.after (.replace path text.encode)) :=
  h.write path text.encode w

theorem OverDisk.copy_cases (h : storage.OverDisk) (source target : Path) (w : World) :
    (∃ e, (storage.copy source target).run w = (.error e, w)) ∨
      (storage.copy source target).run w =
        ((w.tree.copy w.here source target).2, w.after (.copy source target)) :=
  h.copy source target w

end Storage

end Stencil
