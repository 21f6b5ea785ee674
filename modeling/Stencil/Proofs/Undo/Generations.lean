import Stencil.Proofs.Undo.Pruning

/-!
# Generations of backups

Runs follow one another on one backup root, each of them ended, discarded or killed (`Series`). A
run that ends removes one directory, that of the run whose manifest it found. So the directory of
a run that is killed goes with the next one that ends, but the directory that it would have
removed stays for good: right after a run has ended, its directory is the only one if and only if
all runs before have ended or listed nothing, but for a first one that was killed
(`Series.alone_iff`).
-/

namespace Stencil

open Stencil.Path (IsName)
open Stencil.Tree (place OnWay Changes Loses WellFormed)

/-- What became of a run. -/
inductive Fate where
  /-- It has listed no file. -/
  | idle
  | ended
  /-- It has listed a file and written its manifest as the last one, but not ended. -/
  | killed
  /-- It has listed a file, but its manifest is not the last one. -/
  | mute
deriving DecidableEq, Repr

/-- Runs and what became of them, the latest first. -/
abbrev Past := List (Text × Fate)

namespace Past

/-- The run that has written the last manifest. -/
def lead : Past → Option Text
  | [] => none
  | (id, .ended) :: _ => some id
  | (id, .killed) :: _ => some id
  | (_, .idle) :: past => lead past
  | (_, .mute) :: past => lead past

/-- The runs whose directories are still there. -/
def left : Past → List Text
  | [] => []
  | (_, .idle) :: past => left past
  | (id, .ended) :: past => id :: (left past).filter fun other => some other ≠ lead past
  | (id, .killed) :: past => id :: left past
  | (id, .mute) :: past => id :: left past

/-- All runs have ended, but for those that have listed nothing and a first one that was killed. -/
def IsTidy : Past → Prop
  | [] => True
  | (_, .idle) :: past => IsTidy past
  | (_, .ended) :: past => IsTidy past
  | (_, .killed) :: past => ∀ run ∈ past, run.2 = .idle
  | (_, .mute) :: _ => False

def ids (past : Past) : List Text := past.map Prod.fst

theorem mem_ids_of_left {past : Past} {id : Text} (h : id ∈ left past) : id ∈ ids past := by
  induction past with
  | nil => cases h
  | cons run past ih =>
      obtain ⟨run, fate⟩ := run
      cases fate with
      | idle => exact List.mem_cons_of_mem _ (ih h)
      | ended =>
          rcases List.mem_cons.mp h with rfl | h
          · exact List.mem_cons_self
          · exact List.mem_cons_of_mem _ (ih (List.mem_filter.mp h).1)
      | killed | mute =>
          rcases List.mem_cons.mp h with rfl | h
          · exact List.mem_cons_self
          · exact List.mem_cons_of_mem _ (ih h)

/-- The directory of the run that has written the last manifest is there. -/
theorem lead_mem_left {past : Past} {id : Text} (h : lead past = some id) : id ∈ left past := by
  induction past with
  | nil => cases h
  | cons run past ih =>
      obtain ⟨run, fate⟩ := run
      cases fate with
      | idle => exact ih h
      | ended | killed => exact Option.some.inj h ▸ List.mem_cons_self
      | mute => exact List.mem_cons_of_mem _ (ih h)

theorem left_eq_nil_iff {past : Past} : left past = [] ↔ ∀ run ∈ past, run.2 = .idle := by
  induction past with
  | nil => exact iff_of_true rfl fun run hrun => by cases hrun
  | cons run past ih =>
      obtain ⟨run, fate⟩ := run
      cases fate with
      | idle =>
          exact ih.trans ⟨fun h => List.forall_mem_cons.mpr ⟨rfl, h⟩,
            fun h => (List.forall_mem_cons.mp h).2⟩
      | ended | killed | mute =>
          refine iff_of_false (List.cons_ne_nil _ _) fun hall => ?_
          cases hall _ List.mem_cons_self

/-- The end of a run takes one directory away. -/
theorem mem_left_ended {past : Past} {id name : Text} (hfresh : id ∉ ids past) :
    name ∈ left ((id, .ended) :: past) ↔
      name ∈ left ((id, .killed) :: past) ∧ lead past ≠ some name := by
  rw [left, left, List.mem_cons, List.mem_cons, List.mem_filter]
  constructor
  · rintro (rfl | ⟨hmem, hne⟩)
    · exact ⟨Or.inl rfl, fun hlead => hfresh (mem_ids_of_left (lead_mem_left hlead))⟩
    · exact ⟨Or.inr hmem, (of_decide_eq_true hne).symm⟩
  · rintro ⟨hmem, hne⟩
    exact hmem.imp_right fun hmem => ⟨hmem, decide_eq_true hne.symm⟩

/-- When all is tidy there is no directory left but that of the run which has written the last
manifest. -/
theorem isTidy_iff {past : Past} (h : (ids past).Nodup) :
    IsTidy past ↔ ∀ id ∈ left past, lead past = some id := by
  induction past with
  | nil => exact iff_of_true trivial fun id hid => by cases hid
  | cons run past ih =>
      obtain ⟨run, fate⟩ := run
      obtain ⟨hfresh, hdistinct⟩ := List.nodup_cons.mp h
      cases fate with
      | idle => exact ih hdistinct
      | ended =>
          refine (ih hdistinct).trans ⟨fun hall id hid => ?_, fun hall id hid => ?_⟩
          · rcases List.mem_cons.mp hid with rfl | hid
            · rfl
            · obtain ⟨hid, hne⟩ := List.mem_filter.mp hid
              exact absurd (hall id hid).symm (of_decide_eq_true hne)
          · by_contra hne
            have hlead := hall id (List.mem_cons_of_mem _
              (List.mem_filter.mpr ⟨hid, decide_eq_true (Ne.symm hne)⟩))
            exact hfresh (Option.some.inj hlead ▸ mem_ids_of_left hid)
      | killed =>
          refine left_eq_nil_iff.symm.trans ⟨fun hnil id hid => ?_, fun hall => ?_⟩
          · rw [left, hnil] at hid
            rw [List.mem_singleton.mp hid]
            rfl
          · refine List.eq_nil_iff_forall_not_mem.mpr fun id hid => hfresh ?_
            have hlead := hall id (List.mem_cons_of_mem _ hid)
            exact Option.some.inj hlead ▸ mem_ids_of_left hid
      | mute =>
          refine iff_of_false not_false fun hall => hfresh (mem_ids_of_left (lead_mem_left ?_))
          exact hall run List.mem_cons_self

end Past

section Series

variable {root : Path} {here : Loc} {id other : Text} {past : Past} {fate : Fate} {m : Manifest}
  {t u : Tree} {s s' s'' : Standing Backups} {paths : List Path}

/-! ## The disk -/

/-- The disk is as the runs have left it. -/
structure Reflects (root : Path) (here : Loc) (past : Past) (t : Tree) : Prop where
  wellFormed : t.WellFormed
  vacant : ∀ id, IsId root here id → id ∉ past.ids → Vacant root here id t
  dirs : ∀ id, IsId root here id → (t.node? (place here root ++ [id]) = some .dir ↔ id ∈ past.left)
  unwritten : past.lead = none → t.bytes? (place here (Backups.lastPath root)) = none
  written : ∀ id, past.lead = some id → ∃ m, m.runId = id ∧ Published root here m t

/-- What a run does leaves names alone that other runs may have. -/
theorem Reflects.others (h : Reflects root here past t)
    (hchanges : Changes (IsNear root here id)
      (fun loc => IsOwn root here id loc ∨ loc = place here (Backups.lastPath root)) t u) :
    (∀ other, IsId root here other → other ∉ id :: past.ids → Vacant root here other u) ∧
      ∀ other, IsId root here other → other ≠ id →
        (u.node? (place here root ++ [other]) = some .dir ↔ other ∈ past.left) := by
  refine ⟨fun other hother hnot => ?_, fun other hother hne =>
    (hchanges.dir_iff (hother.not_isNear hne)).trans (h.dirs other hother)⟩
  have hne : other ≠ id := fun heq => hnot (heq ▸ List.mem_cons_self)
  refine (h.vacant other hother fun hmem => hnot (List.mem_cons_of_mem _ hmem)).of_changes hchanges
    (fun rest => hother.not_isNear hne) fun rest => ?_
  rintro (hown | hlast)
  · exact not_isOwn hne hown
  · exact Backups.ne_place_lastPath here root hother.ne_last hlast

/-- A run has listed nothing. -/
theorem Reflects.idle (h : Reflects root here past t) (hid : IsId root here id)
    (hfresh : id ∉ past.ids)
    (hchanges : Changes (IsNear root here id) (IsOwn root here id) t u)
    (hvacant : Vacant root here id u) : Reflects root here ((id, .idle) :: past) u := by
  obtain ⟨hvacants, hdirs⟩ := h.others (hchanges.mono (fun _ hP => hP) fun _ => Or.inl)
  refine ⟨hchanges.wellFormed, hvacants, fun other hother => ?_, fun hnone => ?_,
    fun other hlead => ?_⟩
  · by_cases hne : other = id
    · subst hne
      refine iff_of_false (fun hdir => ?_) fun hleft => hfresh (Past.mem_ids_of_left hleft)
      cases (hvacant []).symm.trans hdir
    · exact hdirs other hother hne
  · exact (hchanges.bytes? (last_not_isOwn hid.ne_last)).trans (h.unwritten hnone)
  · obtain ⟨m, hrunId, hpublished⟩ := h.written other hlead
    exact ⟨m, hrunId, hpublished.changes hchanges (last_not_isOwn hid.ne_last)⟩

/-- The directory of a run that has listed a file is there, besides those from before. -/
theorem Reflects.dirs_cons (h : Reflects root here past t)
    (hchanges : Changes (IsNear root here id)
      (fun loc => IsOwn root here id loc ∨ loc = place here (Backups.lastPath root)) t u)
    (hmade : u.node? (place here root ++ [id]) = some .dir) :
    ∀ other, IsId root here other →
      (u.node? (place here root ++ [other]) = some .dir ↔ other ∈ id :: past.left) := by
  intro other hother
  by_cases hne : other = id
  · exact iff_of_true (hne ▸ hmade) (hne ▸ List.mem_cons_self)
  · rw [List.mem_cons, or_iff_right hne]
    exact (h.others hchanges).2 other hother hne

/-- A run has listed a file and written its manifest as the last one. -/
theorem Reflects.killed (h : Reflects root here past t)
    (hchanges : Changes (IsNear root here id)
      (fun loc => IsOwn root here id loc ∨ loc = place here (Backups.lastPath root)) t u)
    (hmade : u.node? (place here root ++ [id]) = some .dir) (hpublished : Published root here m u)
    (hrunId : m.runId = id) : Reflects root here ((id, .killed) :: past) u where
  wellFormed := hchanges.wellFormed
  vacant := (h.others hchanges).1
  dirs := h.dirs_cons hchanges hmade
  unwritten hnone := by cases hnone
  written other hlead := by
    obtain rfl := Option.some.inj hlead
    exact ⟨m, hrunId, hpublished⟩

/-- A run has listed a file, and the last manifest is what it was. -/
theorem Reflects.mute (h : Reflects root here past t)
    (hchanges : Changes (IsNear root here id)
      (fun loc => IsOwn root here id loc ∨ loc = place here (Backups.lastPath root)) t u)
    (hmade : u.node? (place here root ++ [id]) = some .dir)
    (hlast : u.bytes? (place here (Backups.lastPath root)) =
      t.bytes? (place here (Backups.lastPath root))) :
    Reflects root here ((id, .mute) :: past) u where
  wellFormed := hchanges.wellFormed
  vacant := (h.others hchanges).1
  dirs := h.dirs_cons hchanges hmade
  unwritten hnone := hlast.trans (h.unwritten hnone)
  written other hlead := by
    obtain ⟨m, hrunId, bytes, hbytes, hread⟩ := h.written other hlead
    obtain ⟨hlocate, hnode⟩ := Tree.read_eq_ok.mp hread
    refine ⟨m, hrunId, bytes, hbytes, Tree.read_eq_ok.mpr
      ⟨Tree.locate_of_dirs hchanges.dirs hlocate, Tree.bytes?_eq_some.mp ?_⟩⟩
    rw [hlast, Tree.bytes?_eq_some.mpr hnode]

/-- The directory of a run goes. -/
theorem node?_removeRun (hroot : t.isDir here root = true) (hid : IsId root here id)
    (hmade : t.node? (place here root ++ [id]) = some .dir) :
    (t.removeTree here (Backups.runDir root id)).1.node? (place here root ++ [id]) = none := by
  have hplace := place_runDir root here hid.isName
  have hkept := Backups.runDir_eq root hid.isName
  have hname : (Backups.runDir root id).parts.getLast? = some id := by
    rw [hkept]
    exact List.getLast?_concat
  refine Tree.removeTree_gone (isDir_runDir hroot hid.isName hmade) hname hid.isName.ne_parentName
    (fun loc hway hbelow => ?_) (hplace ▸ List.prefix_rfl)
  rw [hkept, kept_parent_nil] at hway
  rw [hplace] at hbelow
  obtain ⟨rest, -, rfl⟩ := Tree.isBelow_iff.mp hbelow
  exact hid.apart _ hway (List.prefix_append _ _)

/-- A run has ended, and the directory of the run that it found is removed. -/
theorem Reflects.ended (h : Reflects root here ((id, .killed) :: past) t)
    (hids : ∀ name ∈ Past.ids past, IsId root here name) (hfresh : id ∉ past.ids)
    (hu : u = past.lead.elim t fun other => (t.removeTree here (Backups.runDir root other)).1) :
    Reflects root here ((id, .ended) :: past) u := by
  obtain ⟨m, hrunId, hpublished⟩ := h.written id rfl
  cases hlead : past.lead with
  | none =>
      rw [hlead] at hu
      obtain rfl : u = t := hu
      refine ⟨h.wellFormed, h.vacant, fun name hname => ?_, fun hnone => (by cases hnone), h.written⟩
      refine (h.dirs name hname).trans ((Past.mem_left_ended hfresh).trans (and_iff_left ?_)).symm
      rw [hlead]
      exact fun heq => by cases heq
  | some other =>
      have hmem := Past.lead_mem_left hlead
      have hother := hids other (Past.mem_ids_of_left hmem)
      rw [hlead] at hu
      obtain rfl : u = (t.removeTree here (Backups.runDir root other)).1 := hu
      have hloses := Loses.removeTree h.wellFormed here (Backups.runDir root other)
      have hmade := (h.dirs other hother).mpr (List.mem_cons_of_mem _ hmem)
      refine ⟨hloses.wellFormed, fun name hname hnot rest =>
        hloses.eq_none (h.vacant name hname hnot rest), fun name hname => ?_,
        fun hnone => (by cases hnone), fun name hname => ?_⟩
      · rw [Past.mem_left_ended hfresh, hlead]
        by_cases hne : name = other
        · subst hne
          rw [node?_removeRun hpublished.isDir hother hmade]
          exact iff_of_false (fun hdir => by cases hdir) fun hand => hand.2 rfl
        · rw [hloses.node? fun hbelow => hne ?_, and_iff_left fun heq => hne (Option.some.inj heq).symm]
          · exact h.dirs name hname
          · rw [place_runDir root here hother.isName, List.prefix_append_right_inj,
              List.cons_prefix_cons] at hbelow
            exact hbelow.1.symm
      · obtain rfl := Option.some.inj hname
        exact ⟨m, hrunId, hpublished.removeTree h.wellFormed hother.apart
          (isDir_runDir hpublished.isDir hother.isName hmade)
          (place_runDir root here hother.isName ▸ List.prefix_rfl)⟩

/-- What a run finds out: the run that has written the last manifest before. -/
theorem Reflects.obsolete? (h : Reflects root here past t)
    (hids : ∀ name ∈ Past.ids past, IsId root here name) (hlast : id ≠ Backups.lastFileName)
    (hfresh : id ∉ past.ids)
    (hcalm : Changes (IsNear root here id) (IsOwn root here id) t u) :
    Backups.obsolete? root id here u = past.lead.map (Backups.runDir root) := by
  have hnot : ¬ IsOwn root here id (place here (Backups.lastPath root)) := last_not_isOwn hlast
  cases hlead : past.lead with
  | none => exact obsolete?_of_bytes? ((hcalm.bytes? hnot).trans (h.unwritten hlead))
  | some other =>
      obtain ⟨m, rfl, hpublished⟩ := h.written other hlead
      have hmem := Past.lead_mem_left hlead
      have hother := hids _ (Past.mem_ids_of_left hmem)
      rw [(hpublished.changes hcalm hnot).obsolete? hother.isName
        (hcalm.dirs _ ((h.dirs _ hother).mpr hmem)) id, if_neg fun heq => hfresh ?_]
      · rfl
      · exact heq ▸ Past.mem_ids_of_left hmem

/-- What becomes of a run that has not ended. -/
def fateOf (root : Path) (here : Loc) (id : Text) (m : Manifest) (t : Tree) : Fate :=
  if m.entries = [] then .idle
  else if (Backups.found? root here t).map Manifest.runId = some id then .killed
  else .mute

theorem Reflects.unended (h : Reflects root here past t) (hid : IsId root here id)
    (hfresh : id ∉ past.ids)
    (hidle : m.entries = [] →
      Changes (IsNear root here id) (IsOwn root here id) t u ∧ Vacant root here id u)
    (hlisted : m.entries ≠ [] → Changes (IsNear root here id)
        (fun loc => IsOwn root here id loc ∨ loc = place here (Backups.lastPath root)) t u ∧
      u.node? (place here root ++ [id]) = some .dir ∧
      ((∃ m', m'.runId = id ∧ Published root here m' u) ∨
        u.bytes? (place here (Backups.lastPath root)) =
          t.bytes? (place here (Backups.lastPath root)))) :
    Reflects root here ((id, fateOf root here id m u) :: past) u := by
  rw [fateOf]
  by_cases hentries : m.entries = []
  · obtain ⟨hchanges, hvacant⟩ := hidle hentries
    rw [if_pos hentries]
    exact h.idle hid hfresh hchanges hvacant
  · rw [if_neg hentries]
    obtain ⟨hchanges, hmade, ⟨m', hrunId, hpublished⟩ | hlast⟩ := hlisted hentries
    · rw [if_pos (by rw [hpublished.found?, Option.map_some, hrunId])]
      exact h.killed hchanges hmade hpublished hrunId
    · have hmute := h.mute hchanges hmade hlast
      -- the last manifest is not that of the run, for that has a new name
      rw [if_neg fun hfound => hfresh ?_]
      · exact hmute
      · obtain ⟨m', hm', rfl⟩ := Option.map_eq_some_iff.mp hfound
        cases hlead : past.lead with
        | none =>
            obtain ⟨bytes, -, hread, -⟩ := Backups.found?_eq_some.mp hm'
            have hbytes := Tree.bytes?_eq_some.mpr (Tree.read_eq_ok.mp hread).2
            cases hbytes.symm.trans (hmute.unwritten hlead)
        | some other =>
            obtain ⟨m'', rfl, hpublished⟩ := hmute.written other hlead
            obtain rfl := Option.some.inj (hm'.symm.trans hpublished.found?)
            exact Past.mem_ids_of_left (Past.lead_mem_left hlead)

/-! ## One run after another -/

/-- How a run closes. It ends once it has listed a file, or it tries to; if it has listed none it
may be discarded; or it dies, and what its manager remembers is lost. -/
inductive Closes (id : Text) (s : Standing Backups) : Fate → Standing Backups → Prop
  | ends {m : Manifest} (hlookup : s.memory.runs.lookup id = some m) (hentries : m.entries ≠ [])
      {path : Path} {s' : Standing Backups} (hplay : play (Backups.finalize id) s = (.ok path, s')) :
      Closes id s .ended s'
  | fails {m : Manifest} (hlookup : s.memory.runs.lookup id = some m) (hentries : m.entries ≠ [])
      {e : Failure} {s' : Standing Backups} (hplay : play (Backups.finalize id) s = (.error e, s')) :
      Closes id s (fateOf s.memory.root s.world.here id m s'.world.tree) s'
  | discarded {m : Manifest} (hlookup : s.memory.runs.lookup id = some m) (hentries : m.entries = []) :
      Closes id s .idle (play (Backups.discard id) s).2
  | dies {m : Manifest} (hlookup : s.memory.runs.lookup id = some m) :
      Closes id s (fateOf s.memory.root s.world.here id m s.world.tree)
        ⟨⟨s.memory.root, s.memory.site, [], []⟩, s.world⟩

/-- What runs that follow one another come to. At first there is nothing below the backup root. A
run then begins under a name not used before and takes any snapshots, while files change
elsewhere, and closes. Between runs the manager may be a new one. The way to the backup root does
not lead back through the directory of a run, as only double dots could make it do. -/
inductive Series (root : Path) (here : Loc) : Past → Standing Backups → Prop
  | start {s : Standing Backups} (hsound : s.world.IsSound) (hhere : s.world.here = here)
      (hroot : s.memory.root = root) (hreplaced : s.memory.replaced = [])
      (hempty : ∀ parts, parts ≠ [] → s.world.tree.node? (place here root ++ parts) = none) :
      Series root here [] s
  | run {past : Past} {s : Standing Backups} (h : Series root here past s) (templateName : Text)
      {id : Text} (hid : id = World.runName (s.world.runs + 1)) (hfresh : id ∉ past.ids)
      (hapart : ∀ loc, OnWay here root loc → ¬ place here root ++ [id] <+: loc)
      {paths : List Path} {s' : Standing Backups}
      (hgathers : Gathers id (play (Backups.begin templateName) s).2 paths s')
      {fate : Fate} {s'' : Standing Backups} (hcloses : Closes id s' fate s'') :
      Series root here ((id, fate) :: past) s''
  | renewed {past : Past} {s : Standing Backups} (h : Series root here past s) (site : Path) :
      Series root here past ⟨⟨root, site, [], []⟩, s.world⟩

/-- What is true between any two runs. -/
structure Settled (root : Path) (here : Loc) (past : Past) (s : Standing Backups) : Prop where
  root_eq : s.memory.root = root
  here_eq : s.world.here = here
  names : ∀ part ∈ here, IsName part
  nodup : past.ids.Nodup
  ids : ∀ id ∈ past.ids, IsId root here id
  unnoted : ∀ id, id ∉ past.ids → s.memory.replaced.lookup id = none
  reflects : Reflects root here past s.world.tree

theorem Settled.isSound (h : Settled root here past s) : s.world.IsSound :=
  ⟨h.reflects.wellFormed, h.here_eq ▸ h.names⟩

theorem Settled.begins (h : Settled root here past s) (templateName : Text)
    (hid : id = World.runName (s.world.runs + 1)) (hfresh : id ∉ past.ids) (hisId : IsId root here id) :
    Begun id (play (Backups.begin templateName) s).2 ∧
      Settled root here past (play (Backups.begin templateName) s).2 := by
  subst hid
  have hroot := h.root_eq
  have hhere := h.here_eq
  subst hroot hhere
  refine ⟨begun_begin templateName h.isSound hisId (h.reflects.vacant _ hisId hfresh)
    (h.unnoted _ hfresh), ?_⟩
  obtain ⟨w, hplay, htree, hhere⟩ := play_begin templateName s
  have hreflects := h.reflects
  rw [← htree] at hreflects
  rw [hplay]
  exact ⟨rfl, hhere, h.names, h.nodup, h.ids, h.unnoted, hreflects⟩

/-- Writing its manifest is the business of a run. -/
theorem Gathered.writes {T : Loc → Prop} (h : Gathered id s s' m)
    (hid : IsId s.memory.root s.world.here id)
    (hwritten : Changes (OnWay s.world.here (Backups.kept s.memory.root id [])) T s'.world.tree u)
    (hT : ∀ loc, T loc → loc = place s.world.here s.memory.root ++ [id, Backups.manifestName id] ∨
      loc = place s.world.here (Backups.lastPath s.memory.root)) :
    Changes (IsNear s.memory.root s.world.here id)
      (fun loc => IsOwn s.memory.root s.world.here id loc ∨
        loc = place s.world.here (Backups.lastPath s.memory.root)) s.world.tree u :=
  h.changes.trans (hwritten.mono
    (fun loc hway => Or.inl (isOf_of_onWay_kept hid.isName (fun part hpart => by cases hpart) hway))
    fun loc hloc => (hT loc hloc).imp_left isOwn_of_mem)

/-- One run more. -/
theorem Settled.cons (h : Settled root here past s) (hid : IsId root here id) (hfresh : id ∉ past.ids)
    (hroot : s''.memory.root = root) (hhere : s''.world.here = here)
    (hunnoted : ∀ other, other ≠ id → s.memory.replaced.lookup other = none →
      s''.memory.replaced.lookup other = none)
    (hreflects : Reflects root here ((id, fate) :: past) s''.world.tree) :
    Settled root here ((id, fate) :: past) s'' :=
  ⟨hroot, hhere, h.names, List.nodup_cons.mpr ⟨hfresh, h.nodup⟩, List.forall_mem_cons.mpr ⟨hid, h.ids⟩,
    fun other hnot => hunnoted other (fun heq => hnot (heq ▸ List.mem_cons_self))
      (h.unnoted other fun hmem => hnot (List.mem_cons_of_mem _ hmem)), hreflects⟩

section Closing

variable (h : Settled s.memory.root s.world.here past s) (hid : IsId s.memory.root s.world.here id)
  (hfresh : id ∉ past.ids) (hgathered : Gathered id s s' m)
include h hid hfresh hgathered

theorem Settled.ends {path : Path} (hentries : m.entries ≠ []) (hhere : s''.world.here = s.world.here)
    (hfinishes : Finishes id m s' (.ok path) s'') :
    Settled s.memory.root s.world.here ((id, .ended) :: past) s'' := by
  cases hfinishes with
  | fails hresult =>
      obtain ⟨e, hresult⟩ := hresult
      cases hresult
  | @ends t hresult hmemory hwritten hpublished hremoved hmade =>
      rw [hgathered.root, hgathered.here] at hwritten hpublished hmade
      rw [hgathered.here] at hremoved
      -- right before it removes anything, the run might as well have been killed
      have hkilled := h.reflects.killed (hgathered.writes hid hwritten fun _ hloc => hloc) hmade
        hpublished hgathered.runId
      obtain ⟨u, hcalm, -, hnoted⟩ := hgathered.noted hentries
      refine h.cons hid hfresh (hmemory ▸ hgathered.root) hhere (fun other hne hnone => ?_)
        (hkilled.ended h.ids hfresh ?_)
      · rw [hmemory]
        exact (lookup_filter_ne _ hne).trans ((hgathered.others other hne).2.trans hnone)
      · rw [hremoved, hnoted, h.reflects.obsolete? h.ids hid.ne_last hfresh hcalm]
        cases past.lead <;> rfl

/-- A run whose manifest could not be written has not ended. -/
theorem Settled.fails {e : Failure} (hentries : m.entries ≠ []) (hhere : s''.world.here = s.world.here)
    (hfinishes : Finishes id m s' (.error e) s'') :
    Settled s.memory.root s.world.here
      ((id, fateOf s.memory.root s.world.here id m s''.world.tree) :: past) s'' := by
  cases hfinishes with
  | ends hresult => cases hresult
  | fails hresult hmemory hwritten =>
      rw [hgathered.root, hgathered.here] at hwritten
      have hlast : place s.world.here (Backups.lastPath s.memory.root) ≠
          place s.world.here s.memory.root ++ [id, Backups.manifestName id] :=
        (Backups.ne_place_lastPath _ _ hid.ne_last).symm
      refine h.cons hid hfresh (hmemory ▸ hgathered.root) hhere (fun other hne hnone => ?_)
        (h.reflects.unended hid hfresh (fun hnil => absurd hnil hentries) fun _ => ⟨?_, ?_, ?_⟩)
      · rw [hmemory]
        exact (hgathered.others other hne).2.trans hnone
      · exact hgathered.writes hid hwritten fun loc => Or.inl
      · exact hwritten.dirs _ (hgathered.made hentries)
      · rw [hwritten.bytes? hlast]
        exact hgathered.last.imp_left fun ⟨m', hrunId, hpublished⟩ =>
          ⟨m', hrunId, hpublished.changes hwritten hlast⟩

theorem Settled.discards (hentries : m.entries = []) :
    Settled s.memory.root s.world.here ((id, .idle) :: past) (play (Backups.discard id) s').2 := by
  obtain ⟨hvacant, -, hcalm⟩ := hgathered.idle hentries
  refine h.cons hid hfresh hgathered.root hgathered.here (fun other hne hnone => ?_)
    (h.reflects.idle hid hfresh hcalm hvacant)
  exact (lookup_filter_ne _ hne).trans ((hgathered.others other hne).2.trans hnone)

theorem Settled.dies : Settled s.memory.root s.world.here
    ((id, fateOf s.memory.root s.world.here id m s'.world.tree) :: past)
    ⟨⟨s.memory.root, s'.memory.site, [], []⟩, s'.world⟩ := by
  refine h.cons hid hfresh rfl hgathered.here (fun other hne hnone => rfl)
    (h.reflects.unended hid hfresh (fun hentries => ?_) fun hentries =>
      ⟨hgathered.changes, hgathered.made hentries, hgathered.last⟩)
  obtain ⟨hvacant, -, hcalm⟩ := hgathered.idle hentries
  exact ⟨hcalm, hvacant⟩

end Closing

theorem Settled.closes (h : Settled root here past s) (hbegun : Begun id s) (hfresh : id ∉ past.ids)
    (hgathers : Gathers id s paths s') (hcloses : Closes id s' fate s'') :
    Settled root here ((id, fate) :: past) s'' := by
  obtain ⟨m, hgathered⟩ := hgathers.exists_gathered hbegun
  have hid := hbegun.isId
  have hroot := h.root_eq
  have hhere := h.here_eq
  subst hroot hhere
  have hlookup := hgathered.lookup
  have hid' : IsId s'.memory.root s'.world.here id := by
    rw [hgathered.root, hgathered.here]
    exact hid
  obtain ⟨hhere', hfinishes⟩ :=
    finalize_finishes hgathered.changes.wellFormed hid' hlookup hgathered.runId
  cases hcloses with
  | @ends m' hlookup' hentries path s'' hplay =>
      obtain rfl := Option.some.inj (hlookup.symm.trans hlookup')
      rw [hplay] at hhere' hfinishes
      exact h.ends hid hfresh hgathered hentries (hhere'.trans hgathered.here) hfinishes
  | @fails m' hlookup' hentries e s'' hplay =>
      obtain rfl := Option.some.inj (hlookup.symm.trans hlookup')
      rw [hplay] at hhere' hfinishes
      rw [hgathered.root, hgathered.here]
      exact h.fails hid hfresh hgathered hentries (hhere'.trans hgathered.here) hfinishes
  | @discarded m' hlookup' hentries =>
      obtain rfl := Option.some.inj (hlookup.symm.trans hlookup')
      exact h.discards hid hfresh hgathered hentries
  | @dies m' hlookup' =>
      obtain rfl := Option.some.inj (hlookup.symm.trans hlookup')
      rw [hgathered.root, hgathered.here]
      exact h.dies hid hfresh hgathered

theorem Series.settled (h : Series root here past s) : Settled root here past s := by
  induction h with
  | @start s hsound hhere hroot hreplaced hempty =>
      subst hhere hroot
      refine ⟨rfl, rfl, hsound.here, List.nodup_nil, fun id hid => (by cases hid), fun id _ => ?_,
        ⟨hsound.tree, fun id _ _ rest => hempty _ (List.cons_ne_nil _ _), fun id _ => ?_, fun _ => ?_,
          fun id hlead => (by cases hlead)⟩⟩
      · rw [hreplaced]
        rfl
      · rw [hempty _ (List.cons_ne_nil _ _)]
        exact iff_of_false (fun hdir => by cases hdir) List.not_mem_nil
      · rw [Backups.place_lastPath, Tree.bytes?, hempty _ (List.cons_ne_nil _ _)]
  | run h templateName hid hfresh hapart hgathers hcloses ih =>
      obtain ⟨hbegun, hsettled⟩ := ih.begins templateName hid hfresh ⟨hid ▸ World.now.isName_runName _,
        hid ▸ World.now.runName_ne_lastFileName _, hapart⟩
      exact hsettled.closes hbegun hfresh hgathers hcloses
  | renewed h site ih =>
      exact ⟨rfl, ih.here_eq, ih.names, ih.nodup, ih.ids, fun _ _ => rfl, ih.reflects⟩

/-- Right after a run has ended, the last manifest is its own, and its directory is there. No
other run has left one if and only if all was tidy before. -/
theorem Series.alone_iff (h : Series root here ((id, .ended) :: past) s) :
    (∃ m w, (Backups.lastManifest root : Act Sim _).run.run s.world = (.ok (some m), w) ∧
      m.runId = id) ∧
    s.world.tree.node? (place here root ++ [id]) = some .dir ∧
    ((∀ name, IsId root here name → s.world.tree.node? (place here root ++ [name]) = some .dir →
      name = id) ↔ past.IsTidy) := by
  obtain ⟨hroot, hhere, -, hnodup, hids, -, hreflects⟩ := h.settled
  obtain ⟨hfresh, hnodup⟩ := List.nodup_cons.mp hnodup
  obtain ⟨m, hrunId, hpublished⟩ := hreflects.written id rfl
  have hid := hids id List.mem_cons_self
  refine ⟨⟨m, _, hpublished.lastManifest rfl hhere, hrunId⟩,
    (hreflects.dirs id hid).mpr List.mem_cons_self, ?_⟩
  rw [Past.isTidy_iff hnodup]
  constructor
  · intro halone name hname
    by_contra hne
    have hother := hids name (List.mem_cons_of_mem _ (Past.mem_ids_of_left hname))
    have hleft : name ∈ Past.left ((id, .ended) :: past) :=
      List.mem_cons_of_mem _ (List.mem_filter.mpr ⟨hname, decide_eq_true (Ne.symm hne)⟩)
    obtain rfl := halone name hother ((hreflects.dirs name hother).mpr hleft)
    exact hfresh (Past.mem_ids_of_left hname)
  · intro hall name hname hdir
    rcases List.mem_cons.mp ((hreflects.dirs name hname).mp hdir) with rfl | hmem
    · rfl
    · obtain ⟨hmem, hne⟩ := List.mem_filter.mp hmem
      exact absurd (hall name hmem).symm (of_decide_eq_true hne)

end Series

/-! ## A directory left behind

The first run ends, the second one is killed once it has taken its snapshot, and the third one
ends. -/

namespace LeftBehind

def site : Path := ⟨.slash, ["s"]⟩

def root : Path := site.child "b"

def page : Path := site.child "a.html"

def start : Standing Backups :=
  ⟨⟨root, site, [], []⟩,
    World.make ⟨[(["s"], .dir), (["s", "a.html"], .file ("a" : Text).encode)]⟩ [] "1"⟩

def run (number : Nat) : Text := World.runName number

/-- A run begins and takes a snapshot. -/
def taken (number : Nat) (s : Standing Backups) : Standing Backups :=
  (play (Backups.snapshot Storage.disk (run number) page) (play (Backups.begin "t") s).2).2

def ended (number : Nat) (s : Standing Backups) : Except Failure Path × Standing Backups :=
  play (Backups.finalize (run number)) (taken number s)

def first : Standing Backups := (ended 1 start).2

def second : Standing Backups := ⟨⟨root, site, [], []⟩, (taken 2 first).world⟩

def third : Standing Backups := (ended 3 second).2

def past : Past := [(run 2, .killed), (run 1, .ended)]

theorem apart (run : Text) (loc : Loc) (hway : OnWay [] root loc) : ¬ place [] root ++ [run] <+: loc :=
  hway.not_below (by decide) _

theorem gathers_taken {number : Nat} {s : Standing Backups} (hhere : s.world.here = [])
    (hsite : s.memory.site = site) :
    Gathers (run number) (play (Backups.begin "t") s).2 [page] (taken number s) := by
  obtain ⟨w, hplay, htree, hw⟩ := play_begin "t" s
  refine .snapshot .begun Storage.overDisk_disk (by decide) ?_
  rw [hplay]
  show place w.here page ≠ place w.here s.memory.site
  rw [hw, hhere, hsite]
  decide

theorem series_ended {before : Past} {number : Nat} {s : Standing Backups}
    (h : Series root [] before s) (hsite : s.memory.site = site) (hfresh : run number ∉ before.ids)
    (hall : number = s.world.runs + 1 ∧
      (((taken number s).memory.runs.lookup (run number)).any fun m => m.entries ≠ []) = true ∧
      (ended number s).1.toOption.isSome = true) :
    Series root [] ((run number, .ended) :: before) (ended number s).2 := by
  obtain ⟨hnumber, hany, hok⟩ := hall
  obtain ⟨m, hlookup, hentries⟩ := (Option.any_eq_true _ _).mp hany
  obtain ⟨path, hpath⟩ := Option.isSome_iff_exists.mp hok
  replace hpath := Backups.toOption_eq_some.mp hpath
  rcases hplay : ended number s with ⟨result, s'⟩
  rw [hplay] at hpath
  obtain rfl : result = .ok path := hpath
  exact h.run "t" (hnumber ▸ rfl) hfresh (apart _) (gathers_taken h.settled.here_eq hsite)
    (.ends hlookup (of_decide_eq_true hentries) hplay)

theorem series_killed {before : Past} {number : Nat} {s : Standing Backups}
    (h : Series root [] before s) (hfresh : run number ∉ before.ids)
    (hall : s.memory.site = site ∧ number = s.world.runs + 1 ∧
      (((taken number s).memory.runs.lookup (run number)).any fun m =>
        fateOf root [] (run number) m (taken number s).world.tree = .killed) = true) :
    Series root [] ((run number, .killed) :: before)
      ⟨⟨root, site, [], []⟩, (taken number s).world⟩ := by
  obtain ⟨hsite, hnumber, hany⟩ := hall
  obtain ⟨m, hlookup, hfate⟩ := (Option.any_eq_true _ _).mp hany
  have hgathers : Gathers (run number) (play (Backups.begin "t") s).2 [page] (taken number s) :=
    gathers_taken h.settled.here_eq hsite
  have hisId : IsId root [] (run number) :=
    ⟨World.now.isName_runName _, World.now.runName_ne_lastFileName _, apart _⟩
  obtain ⟨hbegun, hsettled⟩ := h.settled.begins "t" (hnumber ▸ rfl) hfresh hisId
  obtain ⟨m', hgathered⟩ := hgathers.exists_gathered hbegun
  have hdies := Closes.dies hlookup
  rw [hgathered.root, hgathered.here, hsettled.root_eq, hsettled.here_eq,
    of_decide_eq_true hfate] at hdies
  exact (h.run "t" (hnumber ▸ rfl) hfresh (apart _) hgathers hdies).renewed site

theorem series_first : Series root [] [(run 1, .ended)] first := by
  have hstart : Series root [] [] start :=
    .start ⟨Tree.wellFormed_of_nodes (by decide), fun part hpart => by cases hpart⟩ rfl rfl rfl
      fun parts _ => Tree.node?_append_eq_none (by decide) (by decide) parts
  exact series_ended hstart rfl List.not_mem_nil (by decide +kernel)

theorem series_second : Series root [] past second :=
  series_killed series_first (by decide +kernel) (by decide +kernel)

theorem series_third : Series root [] ((run 3, .ended) :: past) third :=
  series_ended series_second rfl (by decide +kernel) (by decide +kernel)

/-- The directory of the first run is still there. -/
theorem not_alone : Series root [] ((run 3, .ended) :: past) third ∧ ¬ past.IsTidy ∧
    third.world.tree.node? (place [] root ++ [run 3]) = some .dir ∧
    ¬ ∀ name, IsId root [] name → third.world.tree.node? (place [] root ++ [name]) = some .dir →
      name = run 3 := by
  have huntidy : ¬ past.IsTidy := fun htidy => by cases htidy _ List.mem_cons_self
  obtain ⟨-, hmade, halone⟩ := series_third.alone_iff
  exact ⟨series_third, huntidy, hmade, mt halone.mp huntidy⟩

end LeftBehind

end Stencil
