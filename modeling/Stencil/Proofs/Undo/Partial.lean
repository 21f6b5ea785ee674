import Mathlib.Data.List.Pairwise
import Stencil.Proofs.Disk.Copying
import Stencil.Proofs.Undo.Pruning

/-!
# Restoring what can be restored

The copies of the last manifest go back one after the other, past those that fail, and the answer
accounts for all of them (`run_restore_found`). If the files lie beside each other and away from the
backup root then nothing changes but where copies have gone back (`Returned.restores`), and if no path
makes a detour then what comes of an entry does not depend on the others, so that to restore everything
again changes nothing and is answered as before (`restore_exact`).
-/

namespace Stencil

open Stencil.Tree (place isBelow Changes)

/-! ## Copies with faults -/

/-- Copies are made as the disk makes them, but for some that are refused, always with the same
error. -/
def Storage.CopiesBut (storage : Storage Sim) (fault? : Path → Path → Option OsError) : Prop :=
  ∀ source target w, (storage.copy source target).run w =
    match fault? source target with
    | some e => (.error e, w)
    | none => (Disk.copy source target : Sim _).run w

namespace Storage

variable {storage : Storage Sim} {fault? : Path → Path → Option OsError}

theorem copiesBut_disk : (Storage.disk : Storage Sim).CopiesBut fun _ _ => none := fun _ _ _ => rfl

theorem CopiesBut.withFaults (h : storage.CopiesBut fault?) (faults : Faults) :
    (storage.withFaults faults).CopiesBut fun source target =>
      if source.text ∈ faults.copy then some (refusal "copy" source) else fault? source target := by
  intro source target w
  dsimp only [Storage.withFaults]
  by_cases hfault : source.text ∈ faults.copy
  · rw [if_pos hfault, if_pos hfault]
    rfl
  · rw [if_neg hfault, if_neg hfault]
    exact h source target w

end Storage

namespace BackupEntry

def filePath (e : BackupEntry) : Path := Path.ofText e.file

def backupPath (e : BackupEntry) : Path := Path.ofText e.backup

end BackupEntry

namespace Backups

/-- An entry and what came of copying it back. -/
abbrev Outcome := BackupEntry × Except OsError Unit

def succeeded (outcomes : List Outcome) : List BackupEntry :=
  outcomes.filterMap fun
    | (e, .ok ()) => some e
    | (_, .error _) => none

/-- The files that could not be restored, and why. -/
def failures (outcomes : List Outcome) : List (Text × Text) :=
  outcomes.filterMap fun
    | (_, .ok ()) => none
    | (e, .error error) => some (e.file, error.message)

/-- What is answered when this has come of the entries. -/
def report (outcomes : List Outcome) : Except Failure Nat :=
  if failures outcomes = [] then .ok outcomes.length
  else .error (.restore (.partly (succeeded outcomes).length (failures outcomes)))

theorem length_succeeded_add_failures (outcomes : List Outcome) :
    (succeeded outcomes).length + (failures outcomes).length = outcomes.length := by
  induction outcomes with
  | nil => rfl
  | cons outcome outcomes ih =>
      obtain ⟨e, result⟩ := outcome
      cases result with
      | ok _ =>
        show (succeeded outcomes).length + 1 + (failures outcomes).length = outcomes.length + 1
        omega
      | error _ =>
        show (succeeded outcomes).length + ((failures outcomes).length + 1) = outcomes.length + 1
        omega

theorem mem_succeeded {outcomes : List Outcome} {e : BackupEntry} :
    e ∈ succeeded outcomes ↔ (e, .ok ()) ∈ outcomes := by
  rw [succeeded, List.mem_filterMap]
  constructor
  · rintro ⟨⟨e', result⟩, hmem, heq⟩
    cases result with
    | ok _ => exact Option.some.inj heq ▸ hmem
    | error _ => cases heq
  · exact fun hmem => ⟨_, hmem, rfl⟩

section Restore

variable {root : Path} {storage : Storage Sim} {fault? : Path → Path → Option OsError} {here loc : Loc}
  {t t' u : Tree} {w : World} {m : Manifest} {e : BackupEntry} {entries todo : List BackupEntry}

/-! ## One entry after the other -/

/-- Tries to copy an entry back. -/
def copyBack (fault? : Path → Path → Option OsError) (here : Loc) (t : Tree) (e : BackupEntry) :
    Tree × Except OsError Unit :=
  match fault? e.backupPath e.filePath with
  | some error => (t, .error error)
  | none => t.copy here e.backupPath e.filePath

/-- Tries all entries in order. -/
def copyAll (fault? : Path → Path → Option OsError) (here : Loc) :
    Tree → List BackupEntry → Tree × List Outcome
  | t, [] => (t, [])
  | t, e :: entries =>
    let step := copyBack fault? here t e
    let rest := copyAll fault? here step.1 entries
    (rest.1, (e, step.2) :: rest.2)

theorem run_copy (h : storage.CopiesBut fault?) (e : BackupEntry) (w : World) :
    ∃ w₁, (storage.copy e.backupPath e.filePath).run w =
        ((copyBack fault? w.here w.tree e).2, w₁) ∧
      w₁.tree = (copyBack fault? w.here w.tree e).1 ∧ w₁.here = w.here := by
  rw [h, copyBack]
  cases fault? e.backupPath e.filePath with
  | some error => exact ⟨w, rfl, rfl, rfl⟩
  | none => exact ⟨w.after (.copy e.backupPath e.filePath), rfl, rfl, rfl⟩

/-- Entries that fail do not keep the others from being tried. -/
theorem run_restoreAll (h : storage.CopiesBut fault?) (entries : List BackupEntry) (w : World) :
    ∃ w', (restoreAll storage entries).run w =
        (((succeeded (copyAll fault? w.here w.tree entries).2).length,
          failures (copyAll fault? w.here w.tree entries).2), w') ∧
      w'.tree = (copyAll fault? w.here w.tree entries).1 ∧ w'.here = w.here := by
  induction entries generalizing w with
  | nil => exact ⟨w, rfl, rfl, rfl⟩
  | cons e entries ih =>
      obtain ⟨w₁, hrun, htree, hhere⟩ := run_copy h e w
      rw [copyAll]
      rcases hcopy : copyBack fault? w.here w.tree e with ⟨t₁, result⟩
      rw [hcopy] at hrun htree
      cases result with
      | ok _ =>
          obtain ⟨w', hrest, htree', hhere'⟩ := ih w₁
          rw [htree, hhere] at hrest htree'
          refine ⟨w', ?_, htree', hhere'.trans hhere⟩
          rw [run_restoreAll_ok hrun, hrest]
          rfl
      | error error =>
          obtain ⟨w', hrest, htree', hhere'⟩ := ih (w₁.after (regret e error))
          have htree₁ : (w₁.after (regret e error)).tree = t₁ := htree
          have hhere₁ : (w₁.after (regret e error)).here = w.here := hhere
          rw [htree₁, hhere₁] at hrest htree'
          refine ⟨w', ?_, htree', hhere'.trans hhere₁⟩
          rw [run_restoreAll_error hrun, hrest]
          rfl

/-- The answer tells what has come of all entries. -/
theorem run_restore_found (h : storage.CopiesBut fault?)
    (hfound : found? root w.here w.tree = some m) :
    ∃ w', (restore root storage : Act Sim Nat).run.run w =
        (report (copyAll fault? w.here w.tree m.entries).2, w') ∧
      w'.tree = (copyAll fault? w.here w.tree m.entries).1 ∧ w'.here = w.here := by
  have hlast := lastManifest_of_found? hfound
  obtain ⟨w', hall, htree, hhere⟩ := run_restoreAll h m.entries (w.after (.read (lastPath root)))
  rw [report]
  split
  · next hnone =>
    have hcount : (succeeded (copyAll fault? w.here w.tree m.entries).2).length =
        (copyAll fault? w.here w.tree m.entries).2.length := by
      rw [← length_succeeded_add_failures, hnone, List.length_nil, Nat.add_zero]
    have hall' : (restoreAll storage m.entries).run (w.after (.read (lastPath root))) =
        (((copyAll fault? w.here w.tree m.entries).2.length, []), w') := by
      rw [← hnone, ← hcount]
      exact hall
    exact ⟨_, run_restore hlast hall', htree, hhere⟩
  · next hsome => exact ⟨_, run_restore_partly hlast hall hsome, htree, hhere⟩

/-! ## Entries that keep out of each other's way -/

/-- The files of two entries are not one, and neither is above the other. -/
def Beside (here : Loc) (e e' : BackupEntry) : Prop :=
  ¬ place here e.filePath <+: place here e'.filePath ∧
    ¬ place here e'.filePath <+: place here e.filePath

instance (here : Loc) (e e' : BackupEntry) : Decidable (Beside here e e') :=
  inferInstanceAs (Decidable (_ ∧ _))

instance (here : Loc) : Std.Symm (Beside here) := ⟨fun _ _ h => ⟨h.2, h.1⟩⟩

/-- The files of the entries lie beside each other and not in the backup root or above it, but their
copies lie in it. -/
structure Apart (root : Path) (here : Loc) (entries : List BackupEntry) : Prop where
  files : entries.Pairwise (Beside here)
  outside : ∀ e ∈ entries, ¬ place here root <+: place here e.filePath ∧
    ¬ place here e.filePath <+: place here root
  within : ∀ e ∈ entries, place here root <+: place here e.backupPath

namespace Apart

variable {e' : BackupEntry}

theorem tail (h : Apart root here (e :: entries)) : Apart root here entries where
  files := (List.pairwise_cons.mp h.files).2
  outside e' he' := h.outside e' (List.mem_cons_of_mem _ he')
  within e' he' := h.within e' (List.mem_cons_of_mem _ he')

theorem nodup (h : Apart root here entries) : entries.Nodup :=
  h.files.imp fun {e e'} (hbeside : Beside here e e') (heq : e = e') =>
    hbeside.1 (heq ▸ List.prefix_rfl)

theorem eq_of_prefix (h : Apart root here entries) (he : e ∈ entries) (he' : e' ∈ entries)
    (hloc : place here e.filePath <+: loc) (hloc' : place here e'.filePath <+: loc) : e = e' := by
  by_contra hne
  obtain ⟨hnot, hnot'⟩ := h.files.forall he he' hne
  exact (List.prefix_or_prefix_of_prefix hloc hloc').elim hnot hnot'

theorem not_isBelow (h : Apart root here entries) (he : e ∈ entries) (he' : e' ∈ entries)
    (hloc : place here e.filePath <+: loc) : ¬ isBelow loc (place here e'.filePath) = true := by
  intro hbelow
  obtain ⟨rest, -, hplace⟩ := Tree.isBelow_iff.mp hbelow
  obtain rfl := h.eq_of_prefix he he' (hloc.trans ⟨rest, hplace.symm⟩) List.prefix_rfl
  exact Tree.not_isBelow_of_within hloc hbelow

theorem not_root (h : Apart root here entries) (he : e ∈ entries)
    (hloc : place here e.filePath <+: loc) : ¬ place here root <+: loc := fun hroot =>
  (List.prefix_or_prefix_of_prefix hroot hloc).elim (h.outside e he).1 (h.outside e he).2

end Apart

/-! ## What becomes of the files -/

theorem copyBack_cases (fault? : Path → Path → Option OsError) (here : Loc) (ht : t.WellFormed)
    (e : BackupEntry) :
    (∃ error t', copyBack fault? here t e = (t', .error error) ∧
      Changes (fun _ => True) (fun _ => False) t t') ∨
    ∃ bytes t', copyBack fault? here t e = (t', .ok ()) ∧ t.read here e.backupPath = .ok bytes ∧
      Changes (fun _ => True) (· = t'.landing here e.backupPath e.filePath) t t' ∧
      t'.read here (t'.goal here e.backupPath e.filePath) = .ok bytes := by
  rw [copyBack]
  cases fault? e.backupPath e.filePath with
  | some error => exact Or.inl ⟨error, t, rfl, .refl ht⟩
  | none =>
      dsimp only
      rcases Tree.copy_changes ht here (Path.isProper_ofText e.backup) e.filePath with
        ⟨error, hfails, hchanges⟩ | ⟨-, -, hok, -⟩
      · exact Or.inl ⟨error, _, Prod.ext rfl hfails, hchanges.mono (fun _ _ => trivial) fun _ => id⟩
      · exact Or.inr (Tree.copy_made ht hok)

/-- A copy goes back to its file or to something in it. -/
theorem prefix_landing {bytes : Bytes} (ht : t.WellFormed)
    (hread : t.read here e.backupPath = .ok bytes) (u : Tree) :
    place here e.filePath <+: u.landing here e.backupPath e.filePath :=
  Tree.prefix_landing ht (Path.isProper_ofText e.backup) hread e.filePath u

/-- What the copy of an entry has held lies where it was to go back. -/
def IsBack (here : Loc) (t t' : Tree) (e : BackupEntry) : Prop :=
  ∃ bytes, t.bytes? (place here e.backupPath) = some bytes ∧
    t'.read here (t'.goal here e.backupPath e.filePath) = .ok bytes

/-- The copies of those entries that succeeded have gone back, and no other file has changed. -/
structure Returned (here : Loc) (outcomes : List Outcome) (t t' : Tree) : Prop where
  changes : Changes (fun _ => True)
    (fun loc => ∃ e ∈ succeeded outcomes, loc = t'.landing here e.backupPath e.filePath) t t'
  back : ∀ e ∈ succeeded outcomes, IsBack here t t' e
  within : ∀ e ∈ succeeded outcomes,
    place here e.filePath <+: t'.landing here e.backupPath e.filePath

namespace Returned

variable {outcomes : List Outcome} {bytes : Bytes}

theorem nil (ht : t.WellFormed) : Returned here [] t t :=
  ⟨.refl ht, List.forall_mem_nil _, List.forall_mem_nil _⟩

theorem error {error : OsError} (h : Returned here outcomes u t')
    (hchanges : Changes (fun _ => True) (fun _ => False) t u) :
    Returned here ((e, .error error) :: outcomes) t t' := by
  refine ⟨(hchanges.mono (fun _ => id) fun _ => False.elim).trans h.changes, fun e' he' => ?_,
    h.within⟩
  obtain ⟨bytes, hbytes, hread⟩ := h.back e' he'
  rw [hchanges.bytes? id] at hbytes
  exact ⟨bytes, hbytes, hread⟩

theorem ok (h : Returned here outcomes u t') (ht : t.WellFormed)
    (hapart : Apart root here (e :: entries)) (hentries : ∀ e' ∈ succeeded outcomes, e' ∈ entries)
    (hbackup : t.read here e.backupPath = .ok bytes)
    (hchanges : Changes (fun _ => True) (· = u.landing here e.backupPath e.filePath) t u)
    (hthere : u.read here (u.goal here e.backupPath e.filePath) = .ok bytes) :
    Returned here ((e, .ok ()) :: outcomes) t t' := by
  have hprefix := prefix_landing ht hbackup u
  -- no later copy goes to where this one has gone
  have hkeeps : ¬ ∃ e' ∈ succeeded outcomes, u.landing here e.backupPath e.filePath =
      t'.landing here e'.backupPath e'.filePath := by
    rintro ⟨e', he', heq⟩
    obtain ⟨hnot, hnot'⟩ := (List.pairwise_cons.mp hapart.files).1 e' (hentries e' he')
    exact (List.prefix_or_prefix_of_prefix (heq ▸ hprefix) (h.within e' he')).elim hnot hnot'
  have hread := h.changes.read hkeeps hthere
  have hgoal := Tree.goal_of_read h.changes.dirs hread
  have hlanding : t'.landing here e.backupPath e.filePath =
      u.landing here e.backupPath e.filePath := congrArg (place here) hgoal
  refine ⟨?_, List.forall_mem_cons.mpr ⟨?_, fun e' he' => ?_⟩,
    List.forall_mem_cons.mpr ⟨hlanding ▸ hprefix, h.within⟩⟩
  · refine (hchanges.mono (fun _ => id) fun loc heq => ?_).trans
      (h.changes.mono (fun _ => id) fun loc => ?_)
    · exact ⟨e, List.mem_cons_self, heq.trans hlanding.symm⟩
    · rintro ⟨e', he', heq⟩
      exact ⟨e', List.mem_cons_of_mem _ he', heq⟩
  · rw [← hgoal] at hread
    exact ⟨bytes, Tree.bytes?_eq_some.mpr (Tree.read_eq_ok.mp hbackup).2, hread⟩
  · obtain ⟨bytes', hbytes', hread'⟩ := h.back e' he'
    rw [hchanges.bytes? fun heq => ?_] at hbytes'
    · exact ⟨bytes', hbytes', hread'⟩
    · -- the copies lie in the backup root, and none goes there
      refine hapart.not_root List.mem_cons_self (heq ▸ hprefix) ?_
      exact hapart.within e' (List.mem_cons_of_mem _ (hentries e' he'))

end Returned

theorem copyAll_returned (fault? : Path → Path → Option OsError) (ht : t.WellFormed)
    (hapart : Apart root here entries) :
    ∃ t' outcomes, copyAll fault? here t entries = (t', outcomes) ∧
      outcomes.map Prod.fst = entries ∧ Returned here outcomes t t' := by
  -- the first copy is made before the others, and it is what the others leave of it that counts
  induction entries generalizing t with
  | nil => exact ⟨t, [], rfl, rfl, .nil ht⟩
  | cons e entries ih =>
      rw [copyAll]
      rcases copyBack_cases fault? here ht e with
        ⟨error, u, hcopy, hchanges⟩ | ⟨bytes, u, hcopy, hbackup, hchanges, hthere⟩
      · obtain ⟨t', outcomes, hall, hentries, hrest⟩ := ih hchanges.wellFormed hapart.tail
        rw [hcopy]
        dsimp only
        rw [hall]
        exact ⟨t', _, rfl, congrArg (e :: ·) hentries, hrest.error hchanges⟩
      · obtain ⟨t', outcomes, hall, hentries, hrest⟩ := ih hchanges.wellFormed hapart.tail
        have hmem : ∀ e' ∈ succeeded outcomes, e' ∈ entries := fun e' he' => by
          rw [← hentries]
          exact List.mem_map_of_mem (mem_succeeded.mp he')
        rw [hcopy]
        dsimp only
        rw [hall]
        exact ⟨t', _, rfl, congrArg (e :: ·) hentries,
          hrest.ok ht hapart hmem hbackup hchanges hthere⟩

/-- What restoring makes of the files when this has come of the entries. -/
structure Restores (root : Path) (here : Loc) (outcomes : List Outcome) (t t' : Tree) : Prop where
  /-- A file that was restored holds what its copy holds, or a file in it does if it is a directory. -/
  holds : ∀ e, (e, .ok ()) ∈ outcomes → IsBack here t t' e
  /-- Where an entry failed all is as it was. -/
  fails : ∀ e error, (e, .error error) ∈ outcomes → ∀ loc, place here e.filePath <+: loc →
    t'.bytes? loc = t.bytes? loc
  /-- So it is in the backup root. -/
  keeps : ∀ loc, place here root <+: loc → t'.bytes? loc = t.bytes? loc
  /-- So it is wherever no copy has gone. -/
  spares : ∀ loc, (∀ e, (e, .ok ()) ∈ outcomes → loc ≠ t'.landing here e.backupPath e.filePath) →
    t'.bytes? loc = t.bytes? loc
  dirs : ∀ loc, t.node? loc = some .dir → t'.node? loc = some .dir

theorem Returned.restores {outcomes : List Outcome} (h : Returned here outcomes t t')
    (hapart : Apart root here entries) (hentries : outcomes.map Prod.fst = entries) :
    Restores root here outcomes t t' := by
  have hmem : ∀ e result, (e, result) ∈ outcomes → e ∈ entries := fun e result he => by
    rw [← hentries]
    exact List.mem_map_of_mem he
  have hspares : ∀ loc, (∀ e, (e, .ok ()) ∈ outcomes →
      loc ≠ t'.landing here e.backupPath e.filePath) → t'.bytes? loc = t.bytes? loc :=
    fun loc hloc => h.changes.bytes? fun ⟨e, he, heq⟩ => hloc e (mem_succeeded.mp he) heq
  refine ⟨fun e he => h.back e (mem_succeeded.mpr he), fun e error he loc hloc => ?_,
    fun loc hloc => ?_, hspares, h.changes.dirs⟩
  · refine hspares loc ?_
    rintro e' he' rfl
    obtain rfl := hapart.eq_of_prefix (hmem _ _ he) (hmem _ _ he') hloc
      (h.within e' (mem_succeeded.mpr he'))
    -- an entry is listed once, and so nothing else has come of it
    have hnodup : (outcomes.map Prod.fst).Nodup := hentries ▸ hapart.nodup
    cases congrArg Prod.snd (List.inj_on_of_nodup_map hnodup he he' rfl)
  · refine hspares loc ?_
    rintro e he rfl
    exact hapart.not_root (hmem _ _ he) (h.within e (mem_succeeded.mpr he)) hloc

/-- The last manifest stays. -/
theorem Returned.found? {outcomes : List Outcome} (h : Returned here outcomes t t')
    (hapart : Apart root here entries) (hentries : outcomes.map Prod.fst = entries)
    (hfound : found? root here t = some m) : Backups.found? root here t' = some m := by
  refine found?_changes hfound h.changes ?_
  rintro ⟨e, he, heq⟩
  have hlast : place here root <+: place here (lastPath root) := by
    rw [place_lastPath]
    exact List.prefix_append _ _
  have he' : e ∈ entries := hentries ▸ List.mem_map_of_mem (mem_succeeded.mp he)
  exact hapart.not_root he' (h.within e he) (heq ▸ hlast)

/-! ## Restoring again -/

/-- The ways to the files and to their copies turn back in no directory that is missing. -/
def NoDetours (here : Loc) (t : Tree) (entries : List BackupEntry) : Prop :=
  ∀ e ∈ entries, ¬ t.IsDetour here e.filePath ∧ ¬ t.IsDetour here e.backupPath

/-- A location above the file of an entry that can be restored. -/
def IsAboveFile (fault? : Path → Path → Option OsError) (here : Loc) (entries : List BackupEntry)
    (t : Tree) (loc : Loc) : Prop :=
  ∃ e ∈ entries, (copyBack fault? here t e).2 = .ok () ∧
    isBelow loc (place here e.filePath) = true

/-- A location where the copy of an entry goes that can be restored. -/
def IsLanding (fault? : Path → Path → Option OsError) (here : Loc) (entries : List BackupEntry)
    (t : Tree) (loc : Loc) : Prop :=
  ∃ e ∈ entries, (copyBack fault? here t e).2 = .ok () ∧
    loc = t.landing here e.backupPath e.filePath

/-- Nothing but what restoring the entries may do has been done. -/
def Advances (fault? : Path → Path → Option OsError) (here : Loc) (entries : List BackupEntry)
    (t t' : Tree) : Prop :=
  Changes (IsAboveFile fault? here entries t) (IsLanding fault? here entries t) t t'

theorem read_of_ok (ht : t.WellFormed) (hok : (copyBack fault? here t e).2 = .ok ()) :
    ∃ bytes, t.read here e.backupPath = .ok bytes := by
  rcases copyBack_cases fault? here ht e with ⟨error, t', hcopy, -⟩ | ⟨bytes, t', -, hread, -⟩
  · rw [hcopy] at hok
    cases hok
  · exact ⟨bytes, hread⟩

theorem IsLanding.not_root (h : IsLanding fault? here entries t loc) (ht : t.WellFormed)
    (hapart : Apart root here entries) : ¬ place here root <+: loc := by
  obtain ⟨e, he, hok, rfl⟩ := h
  obtain ⟨bytes, hread⟩ := read_of_ok ht hok
  exact hapart.not_root he (prefix_landing ht hread t)

theorem IsLanding.not_isBelow (h : IsLanding fault? here entries t loc) (ht : t.WellFormed)
    (hapart : Apart root here entries) (he : e ∈ entries) :
    ¬ isBelow loc (place here e.filePath) = true := by
  obtain ⟨e', he', hok, rfl⟩ := h
  obtain ⟨bytes, hread⟩ := read_of_ok ht hok
  exact hapart.not_isBelow he' he (prefix_landing ht hread t)

theorem IsAboveFile.not_prefix (h : IsAboveFile fault? here entries t loc)
    (hapart : Apart root here entries) (he : e ∈ entries) : ¬ place here e.filePath <+: loc := by
  obtain ⟨e', he', -, hbelow⟩ := h
  exact fun hloc => hapart.not_isBelow he he' hloc hbelow

section Again

variable (ht : t.WellFormed) (hhere : t.node? here = some .dir) (hapart : Apart root here entries)
  (hstraight : NoDetours here t entries)

include hhere hapart hstraight in
theorem direct_of_apart (he : e ∈ entries) : t.Direct here e.backupPath e.filePath where
  proper := Path.isProper_ofText e.backup
  start := by
    rw [Tree.start]
    split
    · rfl
    · exact hhere
  source_straight := (hstraight e he).2
  target_straight := (hstraight e he).1
  apart hprefix := hapart.not_root he hprefix (hapart.within e he)

namespace Advances

variable (h : Advances fault? here entries t u)

include ht hhere hapart hstraight h in
/-- What comes of an entry does not depend on what has been restored before. -/
theorem copyBack_eq (he : e ∈ entries) :
    (copyBack fault? here u e).2 = (copyBack fault? here t e).2 := by
  rw [copyBack, copyBack]
  cases fault? e.backupPath e.filePath with
  | some error => rfl
  | none =>
      exact (direct_of_apart hhere hapart hstraight he).copy_stable ht h
        (fun hlanding => hlanding.not_root ht hapart (hapart.within e he))
        (fun loc hlanding _ => hlanding.not_isBelow ht hapart he)
        fun loc habove => habove.not_prefix hapart he

include ht hapart hstraight h in
theorem landing_eq (he : e ∈ entries) :
    u.landing here e.backupPath e.filePath = t.landing here e.backupPath e.filePath :=
  Changes.landing_eq h ht (hstraight e he).1 (fun habove => habove.not_prefix hapart he
    List.prefix_rfl) e.backupPath

include ht hhere hapart hstraight h in
/-- One more entry is tried, and to no effect if its copy has gone back already. -/
theorem copyBack_step (he : e ∈ entries) :
    Advances fault? here entries t (copyBack fault? here u e).1 ∧
      (((copyBack fault? here t e).2 = .ok () → IsBack here t u e) →
        (copyBack fault? here u e).1 = u) := by
  have hsame := h.copyBack_eq ht hhere hapart hstraight he
  cases hfault : fault? e.backupPath e.filePath with
  | some error =>
      rw [copyBack, hfault]
      exact ⟨h, fun _ => rfl⟩
  | none =>
      have hcopy : copyBack fault? here u e = u.copy here e.backupPath e.filePath := by
        rw [copyBack, hfault]
      rw [hcopy] at hsame ⊢
      have hdirect := (direct_of_apart hhere hapart hstraight he).of_changes h
      rcases hdirect.copy_straight h.wellFormed with
        ⟨error, herror⟩ | ⟨bytes, hread, hdone, hchanges, -, hidle⟩
      · rw [herror]
        exact ⟨h, fun _ => rfl⟩
      · have hok := hsame.symm.trans hdone
        refine ⟨h.trans (hchanges.mono (fun loc hbelow => ⟨e, he, hok, hbelow⟩) fun loc hloc =>
          ⟨e, he, hok, hloc.trans (h.landing_eq ht hapart hstraight he)⟩), fun hback => hidle ?_⟩
        obtain ⟨bytes', hbytes', hthere⟩ := hback hok
        have hbytes := Tree.bytes?_eq_some.mpr (Tree.read_eq_ok.mp hread).2
        rw [Changes.bytes? h fun hlanding => hlanding.not_root ht hapart (hapart.within e he),
          hbytes'] at hbytes
        rw [← hbytes]
        exact Tree.bytes?_eq_some.mpr (Tree.read_eq_ok.mp hthere).2

include ht hhere hapart hstraight h in
/-- So every entry comes to what it would have come to alone. -/
theorem copyAll_eq (htodo : todo ⊆ entries) :
    ∃ u', copyAll fault? here u todo =
        (u', todo.map fun e => (e, (copyBack fault? here t e).2)) ∧
      Advances fault? here entries t u' := by
  induction todo generalizing u with
  | nil => exact ⟨u, rfl, h⟩
  | cons e todo ih =>
      obtain ⟨he, htodo⟩ := List.cons_subset.mp htodo
      obtain ⟨u', hall, hadvances⟩ := ih (h.copyBack_step ht hhere hapart hstraight he).1 htodo
      rw [copyAll, hall]
      refine ⟨u', ?_, hadvances⟩
      rw [List.map_cons, h.copyBack_eq ht hhere hapart hstraight he]

include ht hhere hapart hstraight h in
/-- When all is back that can be restored, to restore it again changes nothing. -/
theorem copyAll_again (htodo : todo ⊆ entries)
    (hback : ∀ e ∈ entries, (copyBack fault? here t e).2 = .ok () → IsBack here t u e) :
    copyAll fault? here u todo =
      (u, todo.map fun e => (e, (copyBack fault? here t e).2)) := by
  induction todo with
  | nil => rfl
  | cons e todo ih =>
      obtain ⟨he, htodo⟩ := List.cons_subset.mp htodo
      have hstep : copyBack fault? here u e = (u, (copyBack fault? here t e).2) :=
        Prod.ext ((h.copyBack_step ht hhere hapart hstraight he).2 (hback e he))
          (h.copyBack_eq ht hhere hapart hstraight he)
      rw [copyAll, hstep]
      dsimp only
      rw [ih htodo]
      rfl

end Advances

end Again

/-! ## Restoring the last manifest -/

/-- All entries are tried, whatever comes of the others, and the answer accounts for all of them. What
succeeded has its bytes back, unless it has become a directory, and nothing else changes. -/
theorem restore_exact (hstorage : storage.CopiesBut fault?) (ht : w.tree.WellFormed) :
    (w.tree.isFile w.here (lastPath root) = false →
      (restore root storage : Act Sim Nat).run.run w =
        (.error (.restore (.noManifest (lastPath root))), w)) ∧
    ∀ m, found? root w.here w.tree = some m → Apart root w.here m.entries →
      ∃ outcomes w', (restore root storage : Act Sim Nat).run.run w = (report outcomes, w') ∧
        copyAll fault? w.here w.tree m.entries = (w'.tree, outcomes) ∧
        outcomes.map Prod.fst = m.entries ∧
        (succeeded outcomes).length + (failures outcomes).length = m.entries.length ∧
        Restores root w.here outcomes w.tree w'.tree ∧
        found? root w.here w'.tree = some m ∧
        (w.tree.node? w.here = some .dir → NoDetours w.here w.tree m.entries →
          outcomes = m.entries.map (fun e => (e, (copyBack fault? w.here w.tree e).2)) ∧
          (∀ e ∈ m.entries, w'.tree.isDir w.here e.filePath = w.tree.isDir w.here e.filePath) ∧
          Advances fault? w.here m.entries w.tree w'.tree ∧
          ∀ w₁ : World, w₁.tree = w'.tree → w₁.here = w.here →
            ∃ w₂, (restore root storage : Act Sim Nat).run.run w₁ = (report outcomes, w₂) ∧
              w₂.tree = w'.tree) := by
  refine ⟨fun hfile => run_restore_none (lastManifest_of_not_isFile hfile), fun m hfound hapart => ?_⟩
  obtain ⟨w', hrun, htree, -⟩ := run_restore_found hstorage hfound
  obtain ⟨t', outcomes, hall, hentries, hreturned⟩ := copyAll_returned fault? ht hapart
  have hrestores := hreturned.restores hapart hentries
  have hlength := congrArg List.length hentries
  rw [List.length_map] at hlength
  rw [hall] at hrun htree
  subst htree
  have hfound' := hreturned.found? hapart hentries hfound
  refine ⟨outcomes, w', hrun, hall, hentries, (length_succeeded_add_failures outcomes).trans hlength,
    hrestores, hfound', fun hhere hstraight => ?_⟩
  obtain ⟨u, hall', hadvances⟩ := Advances.copyAll_eq ht hhere hapart hstraight
    (.refl ht : Advances fault? w.here m.entries w.tree w.tree) (List.Subset.refl _)
  obtain ⟨rfl, rfl⟩ := Prod.mk.inj (hall'.symm.trans hall)
  refine ⟨rfl, fun e he => ?_, hadvances, fun w₁ htree hhere₁ => ?_⟩
  · exact Changes.isDir_eq hadvances ht (hstraight e he).1 fun habove =>
      habove.not_prefix hapart he List.prefix_rfl
  · obtain ⟨w₂, hrun₁, htree₁, -⟩ := run_restore_found (w := w₁) hstorage (by
      rw [hhere₁, htree]
      exact hfound')
    have hagain := hadvances.copyAll_again ht hhere hapart hstraight (List.Subset.refl _)
      fun e he hok => hrestores.holds e (List.mem_map.mpr ⟨e, he, by rw [hok]⟩)
    rw [hhere₁, htree, hagain] at hrun₁ htree₁
    exact ⟨w₂, hrun₁, htree₁⟩

end Restore

/-! ## A manifest of which some can be restored

One file is there, one is missing with the directory it was in, and one has become a directory. Two
more entries fail: one has lost its copy, and the copy of the other is refused.
-/

namespace Mixed

def root : Path := ⟨.slash, ["b"]⟩

def present : BackupEntry := ⟨"/a", "/b/r/1"⟩

def missing : BackupEntry := ⟨"/d/a", "/b/r/2"⟩

def turned : BackupEntry := ⟨"/c", "/b/r/3"⟩

def lost : BackupEntry := ⟨"/e", "/b/r/4"⟩

def refused : BackupEntry := ⟨"/f", "/b/r/5"⟩

def manifest : Manifest := ⟨"t", "r", [], [], [lost, present, refused, missing, turned]⟩

def disk : Tree :=
  ⟨[(["a"], .file ("now" : Text).encode), (["c"], .dir), (["b"], .dir), (["b", "r"], .dir),
    (["b", "r", "1"], .file ("one" : Text).encode), (["b", "r", "2"], .file ("two" : Text).encode),
    (["b", "r", "3"], .file ("three" : Text).encode),
    (["b", "r", "5"], .file ("five" : Text).encode),
    (["b", "last_backup.json"], .file ((Json.writeBytes? manifest.toJson).getD []))]⟩

def world : World := World.make disk [] "1"

def storage : Storage Sim := Storage.disk.withFaults ⟨[], [], ["/b/r/5"]⟩

def restored : Except Failure Nat × World := (restore root storage : Act Sim Nat).run.run world

def fault? (source _target : Path) : Option OsError :=
  if source.text ∈ (["/b/r/5"] : List Text) then some (Storage.refusal "copy" source) else none

/-- The entry of the directory counts as restored though the directory is still there. -/
theorem restore_exact_mixed : storage.CopiesBut fault? ∧ disk.WellFormed ∧
    found? root [] disk = some manifest ∧ Apart root [] manifest.entries ∧
    NoDetours [] disk manifest.entries ∧
    ∃ outcomes, restored.1 = report outcomes ∧ succeeded outcomes = [present, missing, turned] ∧
      failures outcomes = ([("/e", "No such file: /b/r/4"),
        ("/f", "injected copy failure: /b/r/5")] : List (Text × Text)) ∧
      Restores root [] outcomes disk restored.2.tree ∧
      restored.2.tree.isDir [] turned.filePath = true ∧
      restored.2.tree.bytes? ["c", "3"] = some ("three" : Text).encode := by
  have hstorage : storage.CopiesBut fault? :=
    Storage.copiesBut_disk.withFaults ⟨[], [], ["/b/r/5"]⟩
  have hwell : disk.WellFormed := Tree.wellFormed_of_nodes (by decide +kernel)
  have hfound : found? root [] disk = some manifest := by decide +kernel
  have hapart : Apart root [] manifest.entries :=
    ⟨by decide +kernel, by decide +kernel, by decide +kernel⟩
  have hdots : ∀ e ∈ manifest.entries, Path.parentName ∉ e.filePath.parts ∧
      Path.parentName ∉ e.backupPath.parts := by
    decide +kernel
  have hstraight : NoDetours [] disk manifest.entries := fun e he =>
    ⟨Tree.not_isDetour_of_not_mem (hdots e he).1, Tree.not_isDetour_of_not_mem (hdots e he).2⟩
  obtain ⟨outcomes, w', hrun, -, -, -, hrestores, -, hagain⟩ :=
    (restore_exact (w := world) hstorage hwell).2 manifest hfound hapart
  obtain ⟨houtcomes, -⟩ := hagain rfl hstraight
  have hrestored : restored = (report outcomes, w') := hrun
  have hturned : restored.2.tree.isDir [] turned.filePath = true ∧
      restored.2.tree.bytes? ["c", "3"] = some ("three" : Text).encode := by
    decide +kernel
  rw [hrestored] at hturned ⊢
  refine ⟨hstorage, hwell, hfound, hapart, hstraight, outcomes, rfl, ?_, ?_, hrestores, hturned⟩
  · rw [houtcomes]
    decide +kernel
  · rw [houtcomes]
    decide +kernel

end Mixed

end Backups

end Stencil
