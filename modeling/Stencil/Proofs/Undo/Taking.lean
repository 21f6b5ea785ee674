import Stencil.Proofs.Disk.Refusals
import Stencil.Proofs.Undo.Shelves

/-!
# Taking one file

While every manifest is written that is to be written (`Recorded`), a snapshot of a file below the site
is refused and leaves the disk as it is, or the copy is made and listed (`snapshot_takes`). On a straight
way to the backup root it makes directories only above the copy and above the manifests, and changes no
other files (`Takes`).
-/

namespace Stencil

open Stencil.Path (IsName)
open Stencil.Tree (place Changes Direct Straight isBelow)

/-! ## Manifests that are written -/

section Recorded

variable {root : Path} {here : Loc} {tag id : Text} {t : Tree} {w w' w'' : World} {event : Event}
  {events events' : List Event}

theorem persists_append : Persists root here tag id t (events ++ events') ↔
    Persists root here tag id t events ∧
      Persists root here tag id (World.replay here tag t events) events' := by
  induction events generalizing t with
  | nil => exact (iff_of_eq (true_and _)).symm
  | cons event events ih =>
      rw [List.cons_append, Persists, Persists, ih, and_assoc]
      rfl

/-- Between two worlds every manifest was written that was to be written. -/
def Recorded (root : Path) (id : Text) (w w' : World) : Prop :=
  ∃ events, Trail w events w' ∧ Persists root w.here w.tag id w.tree events

theorem Trail.events_eq (h : Trail w events w') (h' : Trail w events' w') : events = events' :=
  List.append_cancel_left (h.trace.symm.trans h'.trace)

namespace Recorded

theorem split (h : Recorded root id w w'') (h₁ : Trail w events w') (h₂ : Trail w' events' w'') :
    Recorded root id w w' ∧ Recorded root id w' w'' := by
  obtain ⟨all, htrail, hpersists⟩ := h
  rw [htrail.events_eq (h₁.trans h₂), persists_append] at hpersists
  refine ⟨⟨events, h₁, hpersists.1⟩, events', h₂, ?_⟩
  rw [h₁.here, h₁.tag, h₁.tree]
  exact hpersists.2

theorem succeeds (h : Recorded root id w (w.after event))
    (hmanifest : Backups.IsManifest root id event) : event.Succeeds w.here w.tag w.tree := by
  obtain ⟨events, htrail, hpersists⟩ := h
  rw [htrail.events_eq (Trail.after w event)] at hpersists
  exact hpersists.1 hmanifest

end Recorded

end Recorded

namespace Backups

variable {root path : Path} {here site loc : Loc} {id : Text} {parts : List Text} {t u : Tree}
  {w w' : World} {m : Manifest} {bytes : Bytes} {faults : Faults} {s s' : Standing Backups}

/-! ## Where a run keeps things -/

/-- Where the copy of a file below the site lies. -/
def shelf (root : Path) (here : Loc) (id : Text) (parts : List Text) : Loc :=
  place here root ++ id :: parts

/-- Where a run keeps its manifest. -/
def manifestLoc (root : Path) (here : Loc) (id : Text) : Loc := shelf root here id [manifestName id]

/-- Where the last manifest lies. -/
def lastLoc (root : Path) (here : Loc) : Loc := place here root ++ [lastFileName]

theorem place_runManifestPath (here : Loc) (root : Path) (hid : IsName id) :
    place here (runManifestPath root id) = manifestLoc root here id := by
  rw [runManifestPath_eq root hid]
  exact place_kept here root hid
    fun part hpart => List.mem_singleton.mp hpart ▸ isName_manifestName hid

theorem shelf_ne_lastLoc (hlast : id ≠ lastFileName) :
    shelf root here id parts ≠ lastLoc root here := fun heq =>
  hlast (List.cons.inj (List.append_cancel_left heq)).1

/-- Above something that a run makes when it takes a file. Its manifest is none of that. -/
def IsAbove (root : Path) (here : Loc) (id : Text) (parts : List Text) (loc : Loc) : Prop :=
  loc ≠ manifestLoc root here id ∧
    (isBelow loc (shelf root here id parts) = true ∨
      isBelow loc (manifestLoc root here id) = true ∨ isBelow loc (lastLoc root here) = true)

/-- Where a run makes or changes files when it takes one. -/
def IsTaken (root : Path) (here : Loc) (id : Text) (parts : List Text) (loc : Loc) : Prop :=
  shelf root here id parts <+: loc ∨ loc = manifestLoc root here id ∨ loc = lastLoc root here

/-! ## Manifests -/

/-- A manifest is written in both its places, or it cannot be written at all. -/
theorem persist_recorded (hrecorded : Recorded root m.runId w w') {result : Except Failure Unit}
    (hrun : (persist root m : Act Sim Unit).run.run w = (result, w')) :
    (result = .error .unwritable ∧ w' = w) ∨
    ∃ bytes, Json.writeBytes? m.toJson = some bytes ∧ result = .ok () ∧
      (w.tree.replace w.here w.tag (runManifestPath root m.runId) bytes).2 = .ok () ∧
      ((w.after (keeps root m bytes)).tree.replace w.here w.tag (lastPath root) bytes).2 = .ok () ∧
      w' = (w.after (keeps root m bytes)).after (publishes root bytes) := by
  rcases persist_cases root m w with
    ⟨-, hplay⟩ | ⟨bytes, hbytes, ⟨e, hfails, hplay⟩ | ⟨hkept, hplay⟩⟩
  · obtain ⟨rfl, rfl⟩ := Prod.mk.inj (hplay.symm.trans hrun)
    exact Or.inl ⟨rfl, rfl⟩
  · obtain ⟨-, rfl⟩ := Prod.mk.inj (hplay.symm.trans hrun)
    have hdone : (w.tree.replace w.here w.tag (runManifestPath root m.runId) bytes).2 = .ok () :=
      hrecorded.succeeds ⟨bytes, Or.inl rfl⟩
    cases hfails.symm.trans hdone
  · obtain ⟨hresult, rfl⟩ := Prod.mk.inj (hplay.symm.trans hrun)
    obtain ⟨-, hpublished⟩ := hrecorded.split (Trail.after w _) (Trail.after _ _)
    have hdone : ((w.after (keeps root m bytes)).tree.replace w.here w.tag (lastPath root) bytes).2 =
        .ok () := hpublished.succeeds ⟨bytes, Or.inr rfl⟩
    rw [hdone] at hresult
    exact Or.inr ⟨bytes, hbytes, hresult.symm, hkept, hdone, rfl⟩

/-- On a straight way that makes nothing but directories above the two places. -/
theorem persist_straight (hstraight : Straight w.tree w.here root) (hid : IsName m.runId)
    (hlast : m.runId ≠ lastFileName) (hrecorded : Recorded root m.runId w w')
    {result : Except Failure Unit} (hrun : (persist root m : Act Sim Unit).run.run w = (result, w'))
    (hresult : result ≠ .error .unwritable) :
    ∃ bytes, Json.writeBytes? m.toJson = some bytes ∧ result = .ok () ∧
      Changes (fun loc => isBelow loc (manifestLoc root w.here m.runId) = true ∨
          isBelow loc (lastLoc root w.here) = true)
        (fun loc => loc = manifestLoc root w.here m.runId ∨ loc = lastLoc root w.here)
        w.tree w'.tree ∧
      w'.tree.bytes? (manifestLoc root w.here m.runId) = some bytes ∧
      w'.tree.bytes? (lastLoc root w.here) = some bytes := by
  rcases persist_recorded hrecorded hrun with
    ⟨hfails, -⟩ | ⟨bytes, hbytes, hok, hkept, hdone, rfl⟩
  · exact absurd hfails hresult
  · have hway : Straight w.tree w.here (runManifestPath root m.runId) := by
      rw [runManifestPath_eq root hid]
      refine hstraight.append (List.forall_mem_cons.mpr ⟨hid, fun part hpart => ?_⟩)
      exact List.mem_singleton.mp hpart ▸ isName_manifestName hid
    have hkeeps := hway.replace w.tag bytes
    have hway' : Straight (w.after (keeps root m bytes)).tree w.here (lastPath root) := by
      rw [lastPath_eq]
      exact (hstraight.changes hkeeps).append fun part hpart =>
        List.mem_singleton.mp hpart ▸ isName_lastFileName
    have hpublishes := hway'.replace w.tag bytes
    have hmanifest := Tree.bytes?_of_replace hstraight.wellFormed hkept
    have hother : manifestLoc root w.here m.runId ≠ lastLoc root w.here := shelf_ne_lastLoc hlast
    rw [place_runManifestPath _ _ hid] at hkeeps hmanifest
    rw [place_lastPath] at hpublishes
    refine ⟨bytes, hbytes, hok, (hkeeps.mono (fun _ => Or.inl) fun _ => Or.inl).trans
      (hpublishes.mono (fun _ => Or.inr) fun _ => Or.inr), ?_, ?_⟩
    · exact (hpublishes.bytes? hother).trans hmanifest
    · rw [lastLoc, ← place_lastPath]
      exact Tree.bytes?_of_replace hkeeps.wellFormed hdone

/-! ## Snapshots -/

/-- What comes of a copy that may be refused. -/
def copying (faults : Faults) (here : Loc) (t : Tree) (source target : Path) : Except OsError Unit :=
  if source.text ∈ faults.copy then .error (Storage.refusal "copy" source)
  else (t.copy here source target).2

theorem run_copying (faults : Faults) (source target : Path) (w : World) :
    (((Storage.disk : Storage Sim).withFaults faults).copy source target).run w =
      (copying faults w.here w.tree source target,
        if source.text ∈ faults.copy then w else w.after (.copy source target)) := by
  rw [copying]
  dsimp only [Storage.withFaults]
  by_cases hfault : source.text ∈ faults.copy
  · rw [if_pos hfault, if_pos hfault, if_pos hfault]
    rfl
  · rw [if_neg hfault, if_neg hfault, if_neg hfault]
    rfl

/-- What taking a file makes of a disk. The copy holds what the file held, unless there has been a
directory where it was to go. -/
structure Takes (root : Path) (here : Loc) (id : Text) (parts : List Text) (bytes : Bytes)
    (t u : Tree) : Prop where
  changes : Changes (IsAbove root here id parts) (IsTaken root here id parts) t u
  free : ¬ isBelow (manifestLoc root here id) (shelf root here id parts) = true
  holds : u.bytes? (shelf root here id parts) =
    if t.isDir here (kept root id parts) then none else some bytes

theorem direct_of_source (hstraight : Straight t here root) (hid : IsName id) (hpath : path.IsProper)
    (hplace : place here path = site ++ parts) (hsource : IsSource root here site id parts)
    (hread : t.read here path = .ok bytes) : Direct t here path (kept root id parts) where
  proper := hpath
  start := hstraight.start
  source_straight := Tree.not_isDetour_of_locate (Tree.read_eq_ok.mp hread).1
  target_straight := by
    refine (hstraight.append (List.forall_mem_cons.mpr ⟨hid, fun part hpart => ?_⟩)).straight
    exact hsource.names part (List.mem_append_right _ hpart)
  apart hstarts := by
    rw [hsource.place_kept hid, hplace] at hstarts
    exact hsource.outside ((List.prefix_append _ _).trans hstarts)

/-- A copy that is refused leaves the disk as it is, and one that is made leaves the way straight. -/
theorem after_copying (faults : Faults) (hstraight : Straight w.tree w.here root) (hid : IsName id)
    (hpath : path.IsProper) (hplace : place w.here path = site ++ parts)
    (hsource : IsSource root w.here site id parts) (hread : w.tree.read w.here path = .ok bytes) :
    (∃ e, copying faults w.here w.tree path (kept root id parts) = .error e ∧
        (if path.text ∈ faults.copy then w else w.after (.copy path (kept root id parts))).tree =
          w.tree) ∨
      path.text ∉ faults.copy ∧ copying faults w.here w.tree path (kept root id parts) = .ok () ∧
        (w.tree.copy w.here path (kept root id parts)).2 = .ok () ∧
        Straight (w.tree.copy w.here path (kept root id parts)).1 w.here root := by
  rw [copying]
  by_cases hfault : path.text ∈ faults.copy
  · rw [if_pos hfault, if_pos hfault]
    exact Or.inl ⟨_, rfl, rfl⟩
  · rw [if_neg hfault, if_neg hfault]
    have hdirect := direct_of_source hstraight hid hpath hplace hsource hread
    rcases hdirect.copy_straight hstraight.wellFormed with ⟨e, hfails⟩ | ⟨-, -, hdone, hcopied, -⟩
    · exact Or.inl ⟨e, congrArg Prod.snd hfails, congrArg Prod.fst hfails⟩
    · exact Or.inr ⟨hfault, hdone, hdone, hstraight.changes hcopied⟩

/-- A copy that is made, and the manifests after it. -/
theorem takes_of_changes (hstraight : Straight t here root) (hid : IsName id)
    (hlast : id ≠ lastFileName) (hpath : path.IsProper)
    (hplace : place here path = site ++ parts) (hsource : IsSource root here site id parts)
    (hread : t.read here path = .ok bytes) (hdone : (t.copy here path (kept root id parts)).2 = .ok ())
    (hwritten : Changes (fun loc => isBelow loc (manifestLoc root here id) = true ∨
        isBelow loc (lastLoc root here) = true)
      (fun loc => loc = manifestLoc root here id ∨ loc = lastLoc root here)
      (t.copy here path (kept root id parts)).1 u)
    (hmanifest : u.bytes? (manifestLoc root here id) ≠ none) :
    Takes root here id parts bytes t u := by
  have hdirect := direct_of_source hstraight hid hpath hplace hsource hread
  have hshelf : place here (kept root id parts) = shelf root here id parts := hsource.place_kept hid
  rcases hdirect.copy_straight hstraight.wellFormed with
    ⟨e, hfails⟩ | ⟨bytes', hread', -, hcopied, hlands, -⟩
  · rw [hfails] at hdone
    cases hdone
  · obtain rfl := Except.ok.inj (hread.symm.trans hread')
    have hstarts := Tree.prefix_landing hstraight.wellFormed hpath hread (kept root id parts) t
    rw [hshelf] at hcopied hstarts
    constructor
    case changes =>
      refine ((hcopied.mono (fun _ => Or.inl) fun loc hloc => Or.inl (hloc ▸ hstarts)).trans
        (hwritten.mono (fun _ => Or.inr) fun _ => Or.inr)).except_file hmanifest
    case free =>
      intro hbelow
      obtain ⟨rest, hrest, heq⟩ := Tree.isBelow_iff.mp hbelow
      obtain ⟨rest', heq'⟩ := hstarts
      rw [heq, List.append_assoc] at heq'
      have hdir : (t.copy here path (kept root id parts)).1.node? (manifestLoc root here id) =
          some .dir := by
        refine hcopied.wellFormed.dir_above (List.append_ne_nil_of_left_ne_nil hrest rest') ?_
        rw [heq', Tree.bytes?_eq_some.mp hlands]
        exact Option.some_ne_none _
      exact hmanifest (Tree.bytes?_of_dir (hwritten.dirs _ hdir))
    case holds =>
      have hother : shelf root here id parts ≠ manifestLoc root here id := fun heq =>
        hsource.ne_manifest (List.cons.inj (List.append_cancel_left heq)).2
      rw [hwritten.bytes? (not_or.mpr ⟨hother, shelf_ne_lastLoc hlast⟩)]
      by_cases hdir : t.isDir here (kept root id parts) = true
      · rw [if_pos hdir]
        exact Tree.bytes?_of_dir (hcopied.dirs _ (hshelf ▸ (Tree.isDir_iff.mp hdir).2))
      · rw [if_neg hdir, ← hlands, Tree.landing, Tree.goal, if_neg hdir, hshelf]

/-- A snapshot is refused and leaves the disk as it is, or the copy is made and listed. -/
theorem snapshot_takes {sitePath : Path} (hroot : s.memory.root = root) (hsite : s.memory.site = sitePath)
    (hstraight : Straight s.world.tree s.world.here root) (hid : IsName id)
    (hlast : id ≠ lastFileName) (hpath : path.IsProper)
    (hplace : place s.world.here path = place s.world.here sitePath ++ parts)
    (hsource : IsSource root s.world.here (place s.world.here sitePath) id parts)
    (hread : s.world.tree.read s.world.here path = .ok bytes)
    (hlookup : s.memory.runs.lookup id = some m) (hrunId : m.runId = id)
    (hunlisted : ∀ entry ∈ m.entries, entry.file ≠ (Tree.resolve s.world.here path).text)
    {result : Except Failure BackupEntry}
    (hplay : play (snapshot (Storage.disk.withFaults faults) id path) s = (result, s'))
    (hresult : result ≠ .error .unwritable) (hrecorded : Recorded root id s.world s'.world) :
    (∃ e, copying faults s.world.here s.world.tree path (kept root id parts) = .error e ∧
      result = .error (.os e) ∧ s'.memory = s.memory ∧ s'.world.tree = s.world.tree) ∨
    ∃ entry, entry = entryFor root s.world.here sitePath id path ∧
      copying faults s.world.here s.world.tree path (kept root id parts) = .ok () ∧
      result = .ok entry ∧
      s'.memory = { setRun id (listing m entry) s.memory with replaced := s'.memory.replaced } ∧
      Takes root s.world.here id parts bytes s.world.tree s'.world.tree := by
  subst hroot hsite
  obtain ⟨hlocation, -⟩ := entryFor_eq s.memory.root hid hplace
  have hafter := after_copying faults hstraight hid hpath hplace hsource hread
  rcases snapshot_eq (Storage.disk.withFaults faults) hlookup path with
    ⟨entry, hentry, hfile, -⟩ | ⟨target, rfl, -, ⟨e, w', hcopy, hsnapshot⟩ |
      ⟨w₀, hcopy, entry, events, w₁, hentry, htrail, haside, hsnapshot⟩⟩
  · exact absurd hfile (hunlisted entry hentry)
  · rw [hlocation, run_copying] at hcopy
    obtain ⟨hcopying, rfl⟩ := Prod.mk.inj hcopy
    obtain ⟨rfl, rfl⟩ := Prod.mk.inj (hsnapshot.symm.trans hplay)
    rcases hafter with ⟨-, -, htree⟩ | ⟨-, hdone, -⟩
    · exact Or.inl ⟨e, hcopying, rfl, rfl, htree⟩
    · cases hcopying.symm.trans hdone
  · rw [hlocation, run_copying] at hcopy
    obtain ⟨hcopying, hw₀⟩ := Prod.mk.inj hcopy
    obtain ⟨hresult', hs'⟩ := Prod.mk.inj (hsnapshot.symm.trans hplay)
    rcases hafter with ⟨e, hrefused, -⟩ | ⟨hfault, -, hdone, hcopied⟩
    · cases hrefused.symm.trans hcopying
    rw [if_neg hfault] at hw₀
    subst hw₀
    have htrail₁ := (Trail.after s.world _).trans htrail
    have htree₁ := htrail.tree_eq fun event he => Event.isIdle_of_isAside (haside event he)
    have hstraight₁ : Straight w₁.tree w₁.here s.memory.root := by
      rw [htree₁, htrail₁.here]
      exact hcopied
    rcases hpersist : (persist s.memory.root (listing m entry) : Act Sim _).run.run w₁ with
      ⟨persisted, w₂⟩
    rw [hpersist] at hresult' hs'
    obtain rfl := hs'
    obtain ⟨writes, hwrites, -⟩ := persist_trail s.memory.root (listing m entry) w₁
    rw [hpersist] at hwrites
    obtain ⟨-, hrecorded₁⟩ := hrecorded.split htrail₁ hwrites
    have hid' : (listing m entry).runId = id := hrunId
    have hpersisted : persisted ≠ .error .unwritable := by
      rintro rfl
      exact hresult hresult'.symm
    obtain ⟨written, -, rfl, hwritten, hmanifest, -⟩ := persist_straight hstraight₁
      (hid'.symm ▸ hid) (hid'.symm ▸ hlast) (hid'.symm ▸ hrecorded₁) hpersist hpersisted
    rw [hid', htrail₁.here] at hwritten hmanifest
    rw [htree₁] at hwritten
    refine Or.inr ⟨entry, hentry, hcopying, hresult'.symm, rfl, ?_⟩
    refine takes_of_changes hstraight hid hlast hpath hplace hsource hread hdone hwritten ?_
    rw [hmanifest]
    exact Option.some_ne_none _

/-! ## Endings -/

/-- Where the end of a run changes files: where its manifest lies, and in the directory of another
run. -/
def IsEnded (root : Path) (here : Loc) (id : Text) (loc : Loc) : Prop :=
  loc = manifestLoc root here id ∨ loc = lastLoc root here ∨
    ∃ other, other ≠ id ∧ place here root ++ [other] <+: loc

theorem IsEnded.within (h : IsEnded root here id loc) : place here root <+: loc := by
  rcases h with rfl | rfl | ⟨other, -, hstarts⟩
  · exact List.prefix_append _ _
  · exact List.prefix_append _ _
  · exact (List.prefix_append _ _).trans hstarts

/-- A directory for copies that is removed takes no file with it in the place of the last manifest. -/
theorem removeTree_runDir {other : Text} (hother : IsName other)
    (hlast : t.bytes? (lastLoc root here) = some bytes) :
    (t.removeTree here (runDir root other)).1.bytes? (lastLoc root here) = some bytes ∧
      ∀ loc, ¬ place here root ++ [other] <+: loc →
        (t.removeTree here (runDir root other)).1.bytes? loc = t.bytes? loc := by
  have hplace : place here (runDir root other) = place here root ++ [other] := by
    rw [runDir_eq root hother]
    exact place_kept here root hother fun part hpart => by cases hpart
  refine ⟨?_, fun loc hloc => ?_⟩
  · rw [Tree.removeTree_bytes?, hplace, if_neg, hlast]
    rintro ⟨hdir, hstarts⟩
    have hsame := (List.prefix_append_right_inj _).mp hstarts
    rw [List.cons_prefix_cons, and_iff_left List.nil_prefix] at hsame
    have hnode := (Tree.isDir_iff.mp hdir).2
    rw [hplace, hsame, ← lastLoc, Tree.bytes?_eq_some.mp hlast] at hnode
    cases hnode
  · rw [Tree.removeTree_bytes?, hplace, if_neg fun h => hloc h.2]

/-- The end of a run writes the manifest once more, or it cannot be written at all. -/
theorem finalize_ends (hroot : s.memory.root = root) (hlookup : s.memory.runs.lookup id = some m)
    (hrunId : m.runId = id) {result : Except Failure Path}
    (hplay : play (finalize id) s = (result, s')) (hrecorded : Recorded root id s.world s'.world) :
    result = .error .unwritable ∨ result = .ok (lastPath root) ∧
      (Straight s.world.tree s.world.here root → IsName id → id ≠ lastFileName →
        (∀ dir, s.memory.replaced.lookup id = some (some dir) → IsStale IsName root id dir) →
        ∃ bytes, Json.writeBytes? m.toJson = some bytes ∧
          s'.world.tree.bytes? (lastLoc root s.world.here) = some bytes ∧
          Tree.Spares (IsEnded root s.world.here id) s.world.tree s'.world.tree) := by
  subst hroot hrunId
  obtain ⟨writes, hwrites, -⟩ := persist_trail s.memory.root m s.world
  obtain ⟨persisted, w₁, hpersist, hends⟩ := finalize_eq hlookup
  rw [hpersist] at hwrites
  rcases hends with ⟨e, rfl, hfinal⟩ | ⟨rfl, logs, w₂, hlogs, htrail, hfinal⟩
  · obtain ⟨rfl, rfl⟩ := Prod.mk.inj (hfinal.symm.trans hplay)
    rcases persist_recorded hrecorded hpersist with ⟨hfails, -⟩ | ⟨-, -, hok, -⟩
    · exact Or.inl (congrArg Except.error (Except.error.inj hfails))
    · cases hok
  · obtain ⟨rfl, rfl⟩ := Prod.mk.inj (hfinal.symm.trans hplay)
    refine Or.inr ⟨rfl, fun hstraight hid hlast hstale => ?_⟩
    obtain ⟨bytes, hbytes, -, hchanges, -, hlies⟩ := persist_straight hstraight hid hlast
      (hrecorded.split hwrites htrail).1 hpersist (fun hok => by cases hok)
    have hspares : Tree.Spares (IsEnded s.memory.root s.world.here m.runId) s.world.tree w₁.tree :=
      hchanges.spares.mono fun loc => Or.imp_right Or.inl
    refine ⟨bytes, hbytes, ?_⟩
    have htree := htrail.tree
    rw [World.replay, List.foldl_append, ← World.replay, ← World.replay,
      World.replay_of_isIdle fun event he => Event.isIdle_of_isLog (hlogs event he)] at htree
    dsimp only
    rw [htree]
    cases hdir : (s.memory.replaced.lookup m.runId).join with
    | none => exact ⟨hlies, hspares⟩
    | some dir =>
        obtain ⟨other, hother, hne, rfl⟩ := hstale dir (Option.join_eq_some_iff.mp hdir)
        obtain ⟨hkept, hsame⟩ := removeTree_runDir hother hlies
        rw [hwrites.here]
        refine ⟨hkept, hspares.trans fun loc hloc => hsame loc fun hstarts => ?_⟩
        exact hloc (Or.inr (Or.inr ⟨other, hne, hstarts⟩))

end Backups

end Stencil
