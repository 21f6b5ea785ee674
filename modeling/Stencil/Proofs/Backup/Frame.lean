import Stencil.Proofs.Backup.Manifest
import Stencil.Proofs.Backup.Places
import Stencil.Proofs.Backup.Steps
import Stencil.Proofs.Disk.Changes

/-!
# What backups change

Nothing outside the backup root (`snapshot_frame`, `finalize_frame`). For the end of a run this takes
care: the directory that it removes is named by the last manifest, which must have been read before
anything else was written there (`Careful`).
-/

namespace Stencil

open Stencil.Path (IsName)
open Stencil.Tree (Spares place)

variable {w w' : World} {P : Loc → Prop} {events : List Event}

/-- A world whose disk is a disk, and in which paths lead through names. -/
structure World.IsSound (w : World) : Prop where
  tree : w.tree.WellFormed
  here : ∀ part ∈ w.here, IsName part

theorem Trail.spares (h : Trail w events w') (hw : w.IsSound)
    (hwithin : ∀ event ∈ events, event.Within w.here P) :
    w'.IsSound ∧ Spares P w.tree w'.tree := by
  obtain ⟨hwell, hspares⟩ := World.spares_replay w.tag hw.tree hwithin
  refine ⟨⟨h.tree ▸ hwell, ?_⟩, h.tree ▸ hspares⟩
  rw [h.here]
  exact hw.here

theorem Trail.retains (h : Trail w events w') (hw : w.IsSound)
    (hwithin : ∀ event ∈ events, event.Within w.here P) {T : Loc → Prop} :
    Tree.Retains P T w.tree w'.tree where
  spares := (h.spares hw hwithin).2.mono fun _ => Or.inl
  dirs loc hloc hdir := by
    rw [h.tree]
    exact World.dirs_replay w.tag hw.tree hwithin hloc hdir

theorem Event.within_of_isAside {event : Event} {here : Loc} (h : event.isAside = true) :
    event.Within here P := by
  cases event <;> trivial

theorem Event.Within.mono {Q : Loc → Prop} {event : Event} {here : Loc} (h : event.Within here P)
    (hPQ : ∀ loc, P loc → Q loc) : event.Within here Q := by
  cases event with
  | replace path bytes => exact hPQ _ h
  | copy source target => exact ⟨h.1, hPQ _ h.2.1, fun name => hPQ _ (h.2.2 name)⟩
  | removeTree path => exact fun loc hloc => hPQ _ (h loc hloc)
  | _ => trivial

namespace Backups

variable {storage : Storage Sim} {root path : Path} {run : Text} {manifest : Manifest}
  {s : Standing Backups} {here : Loc} {t t' : Tree} {Known : Text → Prop}

/-! ## Manifests and copies -/

theorem within_of_isManifest {event : Event} (h : IsManifest root run event) :
    event.Within here fun loc =>
      loc = place here (runManifestPath root run) ∨ loc = place here (lastPath root) := by
  obtain ⟨bytes, rfl | rfl⟩ := h
  · exact Or.inl rfl
  · exact Or.inr rfl

theorem place_root_prefix_manifest (here : Loc) (root : Path) (hrun : IsName run) :
    place here root <+: place here (runManifestPath root run) := by
  rw [runManifestPath_eq root hrun, place_kept here root hrun]
  · exact List.prefix_append _ _
  · exact fun part hpart => List.mem_singleton.mp hpart ▸ isName_manifestName hrun

theorem place_root_prefix_last (here : Loc) (root : Path) :
    place here root <+: place here (lastPath root) := by
  rw [place_lastPath]
  exact List.prefix_append _ _

theorem isManifest_within_root (hrun : IsName run) {event : Event}
    (h : IsManifest root run event) : event.Within here (place here root <+: ·) := by
  refine (within_of_isManifest h).mono fun loc hloc => ?_
  rcases hloc with rfl | rfl
  · exact place_root_prefix_manifest here root hrun
  · exact place_root_prefix_last here root

/-- A copy of a file is made among what the run keeps, and leaves the file alone. -/
theorem copy_frame (hw : w.IsSound) (hrun : IsName run) (hpath : path.IsProper) (root site : Path) :
    Event.Within w.here (place w.here root ++ [run] <+: ·)
        (.copy path (location root site run (Tree.resolve w.here path))) ∧
      (w.after (.copy path (location root site run (Tree.resolve w.here path)))).tree.bytes?
        (place w.here path) = w.tree.bytes? (place w.here path) := by
  have hresolve : ∀ part ∈ (Tree.resolve w.here path).parts, IsName part :=
    Tree.isName_of_mem_place hw.here hpath
  obtain ⟨parts, hlocation, hparts, -⟩ := exists_location root site hrun hresolve
  have hkept : place w.here root ++ [run] <+: place w.here (kept root run parts) := by
    rw [place_kept w.here root hrun hparts, List.prefix_append_right_inj]
    exact List.cons_prefix_cons.mpr ⟨rfl, List.nil_prefix⟩
  rw [hlocation]
  refine ⟨⟨hpath, hkept, fun name => hkept.trans (List.prefix_append _ _)⟩, ?_⟩
  · obtain ⟨-, ⟨e, -, hsame⟩ | ⟨-, bytes, goal, -, hgoal, -, hbytes⟩⟩ :=
      Tree.copy_bytes? hw.tree w.here hpath (kept root run parts)
    · exact hsame _
    · exact (hbytes _).trans (if_neg hgoal.symm)

/-! ## The directory that a run removes -/

/-- The last manifest on a disk, if it can be read, is that of a run that is known. -/
def LastKnown (Known : Text → Prop) (root : Path) (here : Loc) (t : Tree) : Prop :=
  ∀ bytes value manifest, t.bytes? (place here (lastPath root)) = some bytes →
    Json.read? .file bytes = some value → Manifest.ofJson value = .ok manifest →
    Known manifest.runId

theorem lastKnown_of_written (h : ∀ bytes, t.bytes? (place here (lastPath root)) = some bytes →
    ∃ manifest : Manifest, Json.writeBytes? manifest.toJson = some bytes ∧ Known manifest.runId) :
    LastKnown Known root here t := by
  intro bytes value manifest hbytes hvalue hmanifest
  obtain ⟨written, hwritten, hknown⟩ := h bytes hbytes
  obtain ⟨value', hvalue', hmanifest'⟩ := Manifest.exists_of_writeBytes? hwritten
  obtain rfl := Option.some.inj (hvalue.symm.trans hvalue')
  obtain rfl := Except.ok.inj (hmanifest.symm.trans hmanifest')
  exact hknown

/-- The directory of another run that is known. -/
def IsStale (Known : Text → Prop) (root : Path) (run : Text) (dir : Path) : Prop :=
  ∃ id, Known id ∧ id ≠ run ∧ dir = runDir root id

/-- A run under way that has read the last manifest before it writes anything, and removes nothing but
the directory of the run named there. -/
structure Careful (Known : Text → Prop) (run : Text) (s : Standing Backups) : Prop where
  has : ∃ manifest, s.memory.runs.lookup run = some manifest ∧ manifest.runId = run ∧
    (manifest.entries ≠ [] → s.memory.replaced.lookup run ≠ none)
  unread : s.memory.replaced.lookup run = none →
    LastKnown Known s.memory.root s.world.here s.world.tree
  stale : ∀ dir, s.memory.replaced.lookup run = some (some dir) → IsStale Known s.memory.root run dir

theorem Notes.stale {known replaced : List (Text × Option Path)}
    (h : Notes root run here t known replaced)
    (hunread : known.lookup run = none → LastKnown Known root here t)
    (hstale : ∀ dir, known.lookup run = some (some dir) → IsStale Known root run dir) :
    replaced.lookup run ≠ none ∧
      ∀ dir, replaced.lookup run = some (some dir) → IsStale Known root run dir := by
  cases h with
  | same h => exact ⟨Option.isSome_iff_ne_none.mp h, hstale⟩
  | found hnone dir? hdir =>
      rw [List.lookup_cons, beq_self_eq_true]
      refine ⟨Option.some_ne_none _, fun dir heq => ?_⟩
      obtain ⟨bytes, value, previous, hread, hvalue, hprevious, hne, hdirEq⟩ :=
        hdir dir (Option.some.inj heq)
      have hbytes := Tree.bytes?_eq_some.mpr (Tree.read_eq_ok.mp hread).2
      exact ⟨_, hunread hnone bytes value previous hbytes hvalue hprevious, hne, hdirEq⟩

/-! ## Snapshots -/

/-- A run that is careful stays so while it only reads and keeps its record. -/
theorem Careful.of_bytes? (h : Careful Known run s) (w : World) (hhere : w.here = s.world.here)
    (hlast : w.tree.bytes? (place s.world.here (lastPath s.memory.root)) =
      s.world.tree.bytes? (place s.world.here (lastPath s.memory.root))) :
    Careful Known run ⟨s.memory, w⟩ where
  has := h.has
  unread hnone := by
    rw [LastKnown, hhere, hlast]
    exact h.unread hnone
  stale := h.stale

theorem lastPath_not_kept (here : Loc) (root : Path) (hlast : run ≠ lastFileName) :
    ¬ place here root ++ [run] <+: place here (lastPath root) := by
  rw [place_lastPath, List.prefix_append_right_inj, List.cons_prefix_cons]
  exact fun h => hlast h.1

/-- A snapshot changes no file outside the backup root, and the file that it is of only if that is one
of its manifests. -/
theorem snapshot_frame (hs : storage.OverDisk) (hw : s.world.IsSound) (hrun : IsName run)
    (hlast : run ≠ lastFileName) (hpath : path.IsProper) (hcareful : Careful Known run s) :
    ∃ events, Trail s.world events (play (snapshot storage run path) s).2.world ∧
      (∀ event ∈ events, event.Within s.world.here (place s.world.here s.memory.root <+: ·)) ∧
      Careful Known run (play (snapshot storage run path) s).2 ∧
      (play (snapshot storage run path) s).2.memory.root = s.memory.root ∧
      (∀ entry, (play (snapshot storage run path) s).1 = .ok entry →
        (play (snapshot storage run path) s).2.memory.replaced.lookup run ≠ none) ∧
      (place s.world.here path ≠ place s.world.here (lastPath s.memory.root) →
        place s.world.here path ≠ place s.world.here (runManifestPath s.memory.root run) →
        (play (snapshot storage run path) s).2.world.tree.bytes? (place s.world.here path) =
          s.world.tree.bytes? (place s.world.here path)) := by
  obtain ⟨manifest, hlookup, hid, hlisted⟩ := hcareful.has
  obtain ⟨hcopy, hown⟩ := copy_frame hw hrun hpath s.memory.root
    (Tree.resolve s.world.here s.memory.site)
  have hinside : ∀ loc, place s.world.here s.memory.root ++ [run] <+: loc →
      place s.world.here s.memory.root <+: loc := fun loc h => (List.prefix_append _ _).trans h
  rcases snapshot_cases hs hlookup path with
    ⟨entry, hentry, -, hplay⟩ | ⟨target, rfl, -, ⟨o, w', hplay, hw'⟩ |
      ⟨-, entry, events, w₁, -, htrail, haside, hplay⟩⟩
  · rw [hplay]
    exact ⟨[], Trail.refl _, by simp, hcareful, rfl,
      fun _ _ => hlisted (List.ne_nil_of_mem hentry), fun _ _ => rfl⟩
  · have hfailed : ∀ entry, (Except.error (.os o) : Except Failure BackupEntry) = .ok entry →
        s.memory.replaced.lookup run ≠ none := fun entry heq => by cases heq
    rw [hplay]
    rcases hw' with rfl | ⟨-, rfl⟩
    · exact ⟨[], Trail.refl _, by simp, hcareful, rfl, hfailed, fun _ _ => rfl⟩
    · have hsingle := List.forall_mem_singleton.mpr hcopy
      obtain ⟨-, hspares⟩ := (Trail.after s.world _).spares hw hsingle
      refine ⟨_, Trail.after _ _, List.forall_mem_singleton.mpr (hcopy.mono hinside), ?_, rfl, hfailed,
        fun _ _ => hown⟩
      exact hcareful.of_bytes? _ rfl (hspares _ (lastPath_not_kept _ _ hlast))
  · have hsingle := List.forall_mem_singleton.mpr hcopy
    obtain ⟨hw₀, hspares₀⟩ := (Trail.after s.world _).spares hw hsingle
    have hcareful₀ := hcareful.of_bytes? (s.world.after _) rfl
      (hspares₀ _ (lastPath_not_kept _ _ hlast))
    have hquiet : ∀ event ∈ events, event.Within s.world.here fun _ => False :=
      fun event he => Event.within_of_isAside (haside event he)
    obtain ⟨hw₁, hspares₁⟩ := htrail.spares hw₀ hquiet
    obtain ⟨writes, hwrites, hmanifests, -⟩ :=
      persist_trail s.memory.root (listing manifest entry) w₁
    have hrunId : (listing manifest entry).runId = run := hid
    rw [hrunId] at hmanifests
    have hhere₁ : w₁.here = s.world.here := htrail.here
    obtain ⟨-, hspares₂⟩ := hwrites.spares hw₁ fun event he =>
      within_of_isManifest (hmanifests event he)
    obtain ⟨hnoted, hstale⟩ := (notes_noted s.memory.root run s.world.here _ _).stale
      hcareful₀.unread hcareful₀.stale
    rw [hplay]
    refine ⟨_, ((Trail.after _ _).trans htrail).trans hwrites, fun event he => ?_,
      ⟨⟨_, lookup_setRun run _ _, hid, fun _ => hnoted⟩, fun hnone => absurd hnone hnoted, hstale⟩,
      rfl, fun _ _ => hnoted, fun hnotLast hnotManifest => ?_⟩
    · rcases List.mem_append.mp he with he | he
      · rcases List.mem_append.mp he with he | he
        · exact List.mem_singleton.mp he ▸ hcopy.mono hinside
        · exact (hquiet event he).mono fun _ h => h.elim
      · exact isManifest_within_root hrun (hmanifests event he)
    · refine (hspares₂ _ ?_).trans ((hspares₁ _ id).trans hown)
      rw [hhere₁]
      exact not_or.mpr ⟨hnotManifest, hnotLast⟩

/-! ## Endings -/

/-- The end of a run changes nothing outside the backup root either. -/
theorem finalize_frame (hKnown : ∀ id, Known id → IsName id) (hrun : IsName run)
    (hcareful : Careful Known run s) :
    ∃ events, Trail s.world events (play (finalize run) s).2.world ∧
      ∀ event ∈ events, event.Within s.world.here (place s.world.here s.memory.root <+: ·) := by
  obtain ⟨manifest, hlookup, hid, -⟩ := hcareful.has
  obtain ⟨writes, hwrites, hmanifests, -⟩ := persist_trail s.memory.root manifest s.world
  have hwithin : ∀ event ∈ writes,
      event.Within s.world.here (place s.world.here s.memory.root <+: ·) :=
    fun event he => isManifest_within_root hrun (hid ▸ hmanifests event he)
  obtain ⟨result, w₁, hpersist, hends⟩ := finalize_cases (s := s) hlookup
  rw [hpersist] at hwrites
  rcases hends with ⟨e, rfl, hplay⟩ | ⟨rfl, events, w₂, htrail, hevents, hplay⟩
  · rw [hplay]
    exact ⟨writes, hwrites, hwithin⟩
  · rw [hplay]
    refine ⟨_, hwrites.trans htrail, fun event he => ?_⟩
    rcases List.mem_append.mp he with he | he
    · exact hwithin event he
    · rcases hevents event he with hlog | ⟨dir, hdir, rfl⟩
      · cases event <;> trivial
      · obtain ⟨id, hid, -, rfl⟩ := hcareful.stale dir hdir
        intro loc hloc
        have hname := hKnown id hid
        rw [runDir_eq _ hname, place_kept _ _ hname (by simp)] at hloc
        exact (List.prefix_append _ _).trans hloc

end Backups

end Stencil
