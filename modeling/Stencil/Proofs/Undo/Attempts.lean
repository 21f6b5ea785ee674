import Stencil.Proofs.Backup.Manifest
import Stencil.Proofs.Backup.Places
import Stencil.Proofs.Disk.Frame
import Stencil.World

/-!
# Runs that have been attempted

What a backup root is worth between any two steps of any run. A run as far as it got is an
`Attempt`; the one that can be undone is the latest that has written a manifest (`latest`). Its
manifest lists every file it has written, with a copy of what the file was before (`Holds`). A step
that changes a file elsewhere spares all that (`Holds.step`), and so a disk stays `Ready`.
-/

namespace Stencil

open Stencil.Path (IsName IsPart parentName)
open Stencil.Tree (place OnWay Grows Puts WellFormed)

/-- The last manifest is written. -/
def Event.isPublishing (root : Path) : Event → Bool
  | replace path _ => decide (path = Backups.lastPath root)
  | _ => false

/-- A run as far as it got: the disk it began with, and what it has done. -/
structure Attempt where
  id : Text
  before : Tree
  events : List Event

namespace Attempt

variable {root : Path} {here loc : Loc} {a : Attempt} {events : List Event}

/-- The same run, further on. -/
def more (a : Attempt) (events : List Event) : Attempt := { a with events := a.events ++ events }

@[simp] theorem more_id : (a.more events).id = a.id := rfl

@[simp] theorem more_before : (a.more events).before = a.before := rfl

theorem more_nil (a : Attempt) : a.more [] = a :=
  congrArg (Attempt.mk a.id a.before) (List.append_nil _)

theorem more_more (a : Attempt) (events events' : List Event) :
    (a.more events).more events' = a.more (events ++ events') :=
  congrArg (Attempt.mk a.id a.before) (List.append_assoc _ _ _)

/-- Whether the run has written its manifest as the last one. -/
def hasBegun (root : Path) (a : Attempt) : Bool := a.events.any (Event.isPublishing root)

theorem hasBegun_more : (a.more events).hasBegun root =
    (a.hasBegun root || events.any (Event.isPublishing root)) :=
  List.any_append

/-- The run has written a file here, outside the backup root. -/
def Wrote (root : Path) (here : Loc) (a : Attempt) (loc : Loc) : Prop :=
  ∃ path bytes, Event.replace path bytes ∈ a.events ∧ place here path = loc ∧
    ¬ place here root <+: loc

theorem Wrote.more (h : a.Wrote root here loc) (events : List Event) :
    (a.more events).Wrote root here loc := by
  obtain ⟨path, bytes, hmem, hrest⟩ := h
  exact ⟨path, bytes, List.mem_append_left _ hmem, hrest⟩

/-- What was written by then, or is written now. -/
theorem Wrote.of_more (h : (a.more events).Wrote root here loc) : a.Wrote root here loc ∨
    ∃ path bytes, Event.replace path bytes ∈ events ∧ place here path = loc ∧
      ¬ place here root <+: loc := by
  obtain ⟨path, bytes, hmem, hrest⟩ := h
  rcases List.mem_append.mp hmem with hmem | hmem
  · exact Or.inl ⟨path, bytes, hmem, hrest⟩
  · exact Or.inr ⟨path, bytes, hmem, hrest⟩

end Attempt

/-- The run that can be undone: the latest one that has begun. -/
def latest (root : Path) (attempts : List Attempt) : Option Attempt :=
  attempts.find? (·.hasBegun root)

theorem latest_cons (root : Path) (a : Attempt) (earlier : List Attempt) :
    latest root (a :: earlier) =
      if a.hasBegun root then some a else latest root earlier := by
  rw [latest, List.find?_cons]
  cases a.hasBegun root <;> rfl

/-- A name that a run can have: nothing else at the backup root has it, and the way to the backup root
does not pass the directory of the run. -/
structure IsId (root : Path) (here : Loc) (id : Text) : Prop where
  isName : IsName id
  ne_last : id ≠ Backups.lastFileName
  apart : ∀ loc, OnWay here root loc → ¬ place here root ++ [id] <+: loc

theorem IsId.not_onWay {root : Path} {here : Loc} {id : Text} {parts : List Text}
    (h : IsId root here id) : ¬ OnWay here root (place here root ++ id :: parts) := by
  refine fun hway => h.apart _ hway ⟨parts, ?_⟩
  rw [List.append_assoc, List.singleton_append]

/-! ## What can be undone -/

section Undo

variable {root : Path} {here loc target site : Loc} {a b : Attempt} {t t' t'' : Tree}
  {e : BackupEntry} {m : Manifest} {id : Text} {parts : List Text} {P : Loc → Prop} {p : Path}
  {events : List Event} {attempts : List Attempt} {last? : Option Attempt}

/-- A place below the site, outside the backup root, whose copy does not come to lie where the run
keeps its manifest. -/
structure IsSource (root : Path) (here site : Loc) (id : Text) (parts : List Text) : Prop where
  ne_nil : parts ≠ []
  ne_manifest : parts ≠ [Backups.manifestName id]
  names : ∀ part ∈ site ++ parts, IsName part
  outside : ¬ place here root <+: site ++ parts

theorem IsSource.place_kept (h : IsSource root here site id parts) (hid : IsName id) :
    place here (Backups.kept root id parts) = place here root ++ id :: parts :=
  Backups.place_kept here root hid fun part hpart => h.names part (List.mem_append_right _ hpart)

/-- The entry of a file and its copy. -/
def entryAt (root : Path) (site : Loc) (id : Text) (parts : List Text) : BackupEntry :=
  ⟨(Path.mk .slash (site ++ parts)).text, (Backups.kept root id parts).text⟩

/-- The entry is good: its copy is what the file was before the run, and the file is still there,
as it was unless the run has written it. -/
structure KeptAs (root : Path) (here site : Loc) (a : Attempt) (t : Tree) (e : BackupEntry)
    (parts : List Text) : Prop where
  source : IsSource root here site a.id parts
  entry : e = entryAt root site a.id parts
  bytes : ∃ bytes now, a.before.bytes? (site ++ parts) = some bytes ∧
    t.read here (Backups.kept root a.id parts) = .ok bytes ∧
    t.bytes? (site ++ parts) = some now ∧ (¬ a.Wrote root here (site ++ parts) → now = bytes)

/-- The manifest is the last one. -/
def Published (root : Path) (here : Loc) (m : Manifest) (t : Tree) : Prop :=
  ∃ bytes, Json.writeBytes? m.toJson = some bytes ∧
    t.read here (Backups.lastPath root) = .ok bytes

/-- The manifest tells of the file. -/
def Lists (m : Manifest) (loc : Loc) : Prop :=
  (∀ part ∈ loc, IsName part) ∧ ∃ e ∈ m.entries, e.file = (Path.mk .slash loc).text

/-- The last manifest is that of the run, its entries are good, and it lists what was written. -/
structure Holds (root : Path) (here site : Loc) (a : Attempt) (m : Manifest) (t : Tree) : Prop where
  published : Published root here m t
  runId : m.runId = a.id
  keeps : ∀ e ∈ m.entries, ∃ parts, KeptAs root here site a t e parts
  listed : ∀ loc, a.Wrote root here loc → Lists m loc

/-- The run that can be undone is held, or there is none and no manifest. -/
structure Awaits (root : Path) (here : Loc) (last? : Option Attempt) (t : Tree) : Prop where
  unheld : last? = none → t.bytes? (place here (Backups.lastPath root)) = none
  held : ∀ a, last? = some a → ∃ m site, Holds root here site a m t

/-- What is true between any two steps: nothing has the names of runs to come, and the run that can
be undone is held. -/
structure Ready (root : Path) (here : Loc) (attempts : List Attempt) (t : Tree) : Prop where
  wellFormed : t.WellFormed
  ids : ∀ a ∈ attempts, IsId root here a.id
  vacant : ∀ id, IsId root here id → (∀ a ∈ attempts, a.id ≠ id) →
    ∀ parts, t.node? (place here root ++ id :: parts) = none
  awaits : Awaits root here (latest root attempts) t

/-! ## Steps on the disk -/

/-- One file may have changed, and directories have been made at locations of a kind. -/
structure Step (P : Loc → Prop) (target : Loc) (t t' : Tree) : Prop where
  wellFormed : t'.WellFormed
  dirs : ∀ loc, t.node? loc = some .dir → t'.node? loc = some .dir
  files : ∀ loc bytes, loc ≠ target → t.node? loc = some (.file bytes) →
    t'.node? loc = some (.file bytes)
  grown : ∀ loc, loc ≠ target → t.node? loc = none → t'.node? loc ≠ none →
    t'.node? loc = some .dir ∧ P loc

namespace Step

theorem of_grows (ht : t'.WellFormed) (h : Grows P t t') (target : Loc) : Step P target t t' where
  wellFormed := ht
  dirs loc := h.dir
  files loc bytes _ := h.file_iff.mpr
  grown loc _ hnone hsome := by
    rcases h loc with heq | ⟨-, hdir, hloc⟩
    · exact absurd (heq.trans hnone) hsome
    · exact ⟨hdir, hloc⟩

theorem puts {bytes : Bytes} (h : Step P (place here p) t t') (hputs : Puts here p bytes t' t'') :
    Step P (place here p) t t'' where
  wellFormed := hputs.wellFormed h.wellFormed
  dirs loc hdir := by
    have hdir' := h.dirs loc hdir
    rw [hputs.node? h.wellFormed, if_neg]
    · exact hdir'
    · rintro rfl
      exact hputs.free hdir'
  files loc bytes hloc hfile := by
    rw [hputs.node? h.wellFormed, if_neg hloc]
    exact h.files loc bytes hloc hfile
  grown loc hloc hnone hsome := by
    rw [hputs.node? h.wellFormed, if_neg hloc] at hsome ⊢
    exact h.grown loc hloc hnone hsome

/-- Files other than the one that changes stay what they were. -/
theorem file_iff (h : Step P target t t') (hloc : loc ≠ target) {bytes : Bytes} :
    t'.node? loc = some (.file bytes) ↔ t.node? loc = some (.file bytes) := by
  refine ⟨fun hfile => ?_, h.files loc bytes hloc⟩
  cases hnode : t.node? loc with
  | none =>
      obtain ⟨hdir, -⟩ := h.grown loc hloc hnode (by rw [hfile]; exact Option.some_ne_none _)
      rw [hdir] at hfile
      cases hfile
  | some node =>
      cases node with
      | dir =>
          rw [h.dirs loc hnode] at hfile
          cases hfile
      | file other => rw [← h.files loc other hloc hnode, hfile]

theorem bytes? (h : Step P target t t') (hloc : loc ≠ target) : t'.bytes? loc = t.bytes? loc :=
  Option.ext fun bytes => by
    rw [Tree.bytes?_eq_some, Tree.bytes?_eq_some, h.file_iff hloc]

theorem locate (h : Step P target t t') {loc : Loc} (hlocate : t.locate here p = .ok loc) :
    t'.locate here p = .ok loc := by
  rw [Tree.place_of_locate hlocate]
  rw [Tree.locate_eq] at hlocate ⊢
  exact Tree.follow_of_dirs fun q hq hne => h.dirs _ (Tree.dirs_of_follow hlocate hq hne)

theorem read (h : Step P target t t') (hp : place here p ≠ target) {bytes : Bytes}
    (hread : t.read here p = .ok bytes) : t'.read here p = .ok bytes := by
  obtain ⟨hlocate, hnode⟩ := Tree.read_eq_ok.mp hread
  exact Tree.read_eq_ok.mpr ⟨h.locate hlocate, h.files _ _ hp hnode⟩

end Step

/-- A step made for a run: directories are made on the way to the backup root and in the directory of
the run. -/
def IsOf (root : Path) (here : Loc) (id : Text) (loc : Loc) : Prop :=
  OnWay here root loc ∨ place here root ++ [id] <+: loc

/-- No step of a run makes anything under a name that other runs may have. -/
theorem Step.vacant (h : Step (IsOf root here id) target t t') {other : Text}
    (hother : IsId root here other) (hne : other ≠ id)
    (htarget : place here root ++ other :: parts ≠ target)
    (hnone : t.node? (place here root ++ other :: parts) = none) :
    t'.node? (place here root ++ other :: parts) = none := by
  by_contra hsome
  obtain ⟨-, hway | hrun⟩ := h.grown _ htarget hnone hsome
  · exact hother.not_onWay hway
  · rw [List.prefix_append_right_inj, List.cons_prefix_cons] at hrun
    exact hne hrun.1.symm

/-- An entry stays good when its copy stays and its file changes only by being written. -/
theorem KeptAs.step (h : KeptAs root here site a t e parts) (hid : IsName a.id)
    (hstep : Step P target t t') (hcopy : target ≠ place here root ++ a.id :: parts)
    (hfile : target = site ++ parts → t'.bytes? target ≠ none ∧ (a.more events).Wrote root here target) :
    KeptAs root here site (a.more events) t' e parts where
  source := h.source
  entry := h.entry
  bytes := by
    obtain ⟨bytes, now, hbefore, hread, hnow, hsame⟩ := h.bytes
    have hread' := hstep.read (by rw [h.source.place_kept hid]; exact hcopy.symm) hread
    by_cases htarget : target = site ++ parts
    · obtain ⟨hthere, hwrote⟩ := hfile htarget
      obtain ⟨now', hnow'⟩ := Option.ne_none_iff_exists'.mp hthere
      rw [htarget] at hnow' hwrote
      exact ⟨bytes, now', hbefore, hread', hnow', fun hnot => absurd hwrote hnot⟩
    · refine ⟨bytes, now, hbefore, hread', ?_, fun hnot => hsame fun hwrote => hnot (hwrote.more _)⟩
      rw [hstep.bytes? (Ne.symm htarget), hnow]

theorem Published.step (h : Published root here m t) (hstep : Step P target t t')
    (hlast : target ≠ place here (Backups.lastPath root)) : Published root here m t' := by
  obtain ⟨bytes, hbytes, hread⟩ := h
  exact ⟨bytes, hbytes, hstep.read hlast.symm hread⟩

/-- What other runs have made possible stays so while a run works in its own directory. -/
theorem Awaits.step (h : Awaits root here last? t) (hids : ∀ a, last? = some a → IsName a.id)
    (hstep : Step P target t t') {rest : List Text} (htarget : target = place here root ++ id :: rest)
    (hlast : id ≠ Backups.lastFileName) (hid : ∀ a, last? = some a → a.id ≠ id) :
    Awaits root here last? t' := by
  have htargetLast : target ≠ place here (Backups.lastPath root) := by
    rw [htarget]
    exact Backups.ne_place_lastPath here root hlast
  refine ⟨fun hnone => ?_, fun a ha => ?_⟩
  · rw [hstep.bytes? htargetLast.symm]
    exact h.unheld hnone
  · obtain ⟨m, site, hholds⟩ := h.held a ha
    refine ⟨m, site, hholds.published.step hstep htargetLast, hholds.runId, fun e he => ?_,
      hholds.listed⟩
    obtain ⟨parts, hkept⟩ := hholds.keeps e he
    refine ⟨parts, ?_⟩
    rw [← a.more_nil]
    refine hkept.step (hids a ha) hstep (fun heq => ?_) fun heq => ?_
    · rw [htarget] at heq
      exact hid a ha (List.cons.inj (List.append_cancel_left heq)).1.symm
    · exact absurd ⟨_, htarget.symm.trans heq⟩ hkept.source.outside

end Undo

end Stencil
