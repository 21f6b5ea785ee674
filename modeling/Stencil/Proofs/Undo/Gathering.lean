import Stencil.Proofs.Undo.Snapshots

/-!
# The snapshots of a run

A run takes snapshots, while files elsewhere may change (`Gathers`). As long as it has listed
nothing it leaves no trace. Once it has, its directory is there, the directory that it makes
obsolete has been noted as it was found before anything of the run was published, and the last
manifest is the one from before or its own (`Gathers.exists_gathered`).
-/

namespace Stencil

open Stencil.Path (IsName)
open Stencil.Tree (place OnWay Changes WellFormed)

section Gathering

variable {root path : Path} {here loc : Loc} {run other : Text} {t t' u : Tree} {m : Manifest}
  {s s' s'' : Standing Backups} {paths : List Path}

/-! ## What other runs have noted -/

theorem lookup_filter_ne {α : Type} (entries : List (Text × α)) (hne : other ≠ run) :
    (entries.filter fun entry => entry.1 ≠ run).lookup other = entries.lookup other := by
  induction entries with
  | nil => rfl
  | cons entry entries ih =>
      obtain ⟨key, value⟩ := entry
      by_cases hkey : key = run
      · have hother : (other == key) = false := beq_eq_false_iff_ne.mpr (hkey ▸ hne)
        rw [List.filter_cons_of_neg (by simpa using hkey), ih, List.lookup_cons, hother]
      · rw [List.filter_cons_of_pos (by simpa using hkey), List.lookup_cons, List.lookup_cons, ih]

theorem lookup_filter_self {α : Type} (run : Text) (entries : List (Text × α)) :
    (entries.filter fun entry => entry.1 ≠ run).lookup run = none := by
  refine List.lookup_eq_none_iff.mpr fun entry hentry => bne_iff_ne.mpr fun heq => ?_
  exact of_decide_eq_true (List.mem_filter.mp hentry).2 heq.symm

theorem lookup_setRun_ne (hne : other ≠ run) (m : Manifest) (b : Backups) :
    (Backups.setRun run m b).runs.lookup other = b.runs.lookup other := by
  rw [Backups.setRun, List.lookup_cons, beq_eq_false_iff_ne.mpr hne]
  exact lookup_filter_ne _ hne

theorem lookup_noted_ne (hne : other ≠ run) (known : List (Text × Option Path)) :
    (Backups.noted root run here t known).lookup other = known.lookup other := by
  rw [Backups.noted]
  split
  · rfl
  · rw [List.lookup_cons, beq_eq_false_iff_ne.mpr hne]

/-- What a run has noted it does not note again. -/
theorem lookup_noted (known : List (Text × Option Path)) :
    (Backups.noted root run here t known).lookup run =
      some ((known.lookup run).getD (Backups.obsolete? root run here t)) := by
  cases hlookup : known.lookup run with
  | some dir? =>
      rw [Backups.noted, hlookup, Option.isSome_some, if_pos rfl, hlookup]
      rfl
  | none =>
      rw [Backups.noted, hlookup, Option.isSome_none, if_neg Bool.false_ne_true, List.lookup_cons,
        beq_self_eq_true]
      rfl

/-! ## Snapshots and other changes -/

/-- A file or directory that is none of the business of backups. -/
def IsElsewhere (root : Path) (here loc : Loc) : Prop := ¬ place here root <+: loc

/-- Where a run takes a standing, snapshot by snapshot. A snapshot may be of any file that does
not lie where the site should be, through any storage over the disk, and it may fail. Meanwhile
files come and change elsewhere. The files that snapshots were taken of are given, the latest
first. -/
inductive Gathers (run : Text) (s : Standing Backups) : List Path → Standing Backups → Prop
  | begun : Gathers run s [] s
  | snapshot {paths : List Path} {s' : Standing Backups} (h : Gathers run s paths s')
      {storage : Storage Sim} (hs : storage.OverDisk) {path : Path} (hpath : path.IsProper)
      (hsite : place s'.world.here path ≠ place s'.world.here s'.memory.site) :
      Gathers run s (path :: paths) (play (Backups.snapshot storage run path) s').2
  | elsewhere {paths : List Path} {s' : Standing Backups} (h : Gathers run s paths s') {t : Tree}
      (hchanges : Changes (IsElsewhere s'.memory.root s'.world.here)
        (IsElsewhere s'.memory.root s'.world.here) s'.world.tree t) :
      Gathers run s paths ⟨s'.memory, { s'.world with tree := t }⟩

/-- A run that has begun and done nothing yet. Nothing has its name. -/
structure Begun (run : Text) (s : Standing Backups) : Prop where
  isId : IsId s.memory.root s.world.here run
  sound : s.world.IsSound
  vacant : Vacant s.memory.root s.world.here run s.world.tree
  empty : ∃ m, s.memory.runs.lookup run = some m ∧ m.runId = run ∧ m.entries = []
  unnoted : s.memory.replaced.lookup run = none

theorem play_begin (templateName : Text) (s : Standing Backups) :
    ∃ w, play (Backups.begin templateName) s = (.ok (World.runName (s.world.runs + 1)),
        ⟨Backups.setRun (World.runName (s.world.runs + 1)) ⟨templateName,
          World.runName (s.world.runs + 1), World.now.iso,
          (Backups.runDir s.memory.root (World.runName (s.world.runs + 1))).text, []⟩ s.memory, w⟩) ∧
      w.tree = s.world.tree ∧ w.here = s.world.here :=
  ⟨_, rfl, rfl, rfl⟩

/-- A run under a name not used before. -/
theorem begun_begin (templateName : Text) (hsound : s.world.IsSound)
    (hid : IsId s.memory.root s.world.here (World.runName (s.world.runs + 1)))
    (hvacant : Vacant s.memory.root s.world.here (World.runName (s.world.runs + 1)) s.world.tree)
    (hunnoted : s.memory.replaced.lookup (World.runName (s.world.runs + 1)) = none) :
    Begun (World.runName (s.world.runs + 1)) (play (Backups.begin templateName) s).2 := by
  obtain ⟨w, hplay, htree, hhere⟩ := play_begin templateName s
  rw [hplay]
  refine ⟨?_, ⟨htree ▸ hsound.tree, hhere ▸ hsound.here⟩, ?_,
    ⟨_, Backups.lookup_setRun _ _ _, rfl, rfl⟩, hunnoted⟩
  · rw [show (⟨_, w⟩ : Standing Backups).world.here = s.world.here from hhere]
    exact hid
  · rw [show (⟨_, w⟩ : Standing Backups).world.here = s.world.here from hhere,
      show (⟨_, w⟩ : Standing Backups).world.tree = s.world.tree from htree]
    exact hvacant

/-- What is made for one run is not made for another. -/
theorem IsId.not_isOf {rest : List Text} (h : IsId root here other) (hne : other ≠ run) :
    ¬ IsOf root here run (place here root ++ other :: rest) := by
  rintro (hway | hrun)
  · exact h.not_onWay hway
  · rw [List.prefix_append_right_inj, List.cons_prefix_cons] at hrun
    exact hne hrun.1.symm

/-- Where directories come meanwhile. -/
def IsNear (root : Path) (here : Loc) (run : Text) (loc : Loc) : Prop :=
  IsOf root here run loc ∨ IsElsewhere root here loc

/-- Where files come and change meanwhile, the last manifest apart. -/
def IsOwn (root : Path) (here : Loc) (run : Text) (loc : Loc) : Prop :=
  place here root ++ [run] <+: loc ∨ IsElsewhere root here loc

/-- Nothing comes or changes under the name of another run. -/
theorem IsId.not_isNear {rest : List Text} (h : IsId root here other) (hne : other ≠ run) :
    ¬ IsNear root here run (place here root ++ other :: rest) := fun hnear =>
  hnear.elim (h.not_isOf hne) fun helsewhere => helsewhere (List.prefix_append _ _)

theorem not_isOwn {rest : List Text} (hne : other ≠ run) :
    ¬ IsOwn root here run (place here root ++ other :: rest) := by
  rintro (hown | helsewhere)
  · rw [List.prefix_append_right_inj, List.cons_prefix_cons] at hown
    exact hne hown.1.symm
  · exact helsewhere (List.prefix_append _ _)

/-- Where a run stands, compared with where it began. -/
structure Gathered (run : Text) (s s' : Standing Backups) (m : Manifest) : Prop where
  root : s'.memory.root = s.memory.root
  site : s'.memory.site = s.memory.site
  here : s'.world.here = s.world.here
  lookup : s'.memory.runs.lookup run = some m
  runId : m.runId = run
  others : ∀ other, other ≠ run → s'.memory.runs.lookup other = s.memory.runs.lookup other ∧
    s'.memory.replaced.lookup other = s.memory.replaced.lookup other
  changes : Changes (IsNear s.memory.root s.world.here run)
    (fun loc => IsOwn s.memory.root s.world.here run loc ∨
      loc = place s.world.here (Backups.lastPath s.memory.root)) s.world.tree s'.world.tree
  idle : m.entries = [] → Vacant s.memory.root s.world.here run s'.world.tree ∧
    s'.memory.replaced.lookup run = none ∧
    Changes (IsNear s.memory.root s.world.here run) (IsOwn s.memory.root s.world.here run)
      s.world.tree s'.world.tree
  made : m.entries ≠ [] → s'.world.tree.node? (place s.world.here s.memory.root ++ [run]) = some .dir
  noted : m.entries ≠ [] → ∃ t, Changes (IsNear s.memory.root s.world.here run)
      (IsOwn s.memory.root s.world.here run) s.world.tree t ∧
    (∀ loc, t.node? loc = some .dir → s'.world.tree.node? loc = some .dir) ∧
    s'.memory.replaced.lookup run = some (Backups.obsolete? s.memory.root run s.world.here t)
  last : (∃ m', m'.runId = run ∧ Published s.memory.root s.world.here m' s'.world.tree) ∨
    s'.world.tree.bytes? (place s.world.here (Backups.lastPath s.memory.root)) =
      s.world.tree.bytes? (place s.world.here (Backups.lastPath s.memory.root))

theorem Begun.gathered (h : Begun run s) : ∃ m, Gathered run s s m := by
  obtain ⟨m, hlookup, hrunId, hentries⟩ := h.empty
  exact ⟨m, rfl, rfl, rfl, hlookup, hrunId, fun _ _ => ⟨rfl, rfl⟩, .refl h.sound.tree,
    fun _ => ⟨h.vacant, h.unnoted, .refl h.sound.tree⟩, fun hne => absurd hentries hne,
    fun hne => absurd hentries hne, Or.inr rfl⟩

theorem Published.changes {P T : Loc → Prop} (h : Published root here m t) (hchanges : Changes P T t u)
    (hlast : ¬ T (place here (Backups.lastPath root))) : Published root here m u := by
  obtain ⟨bytes, hbytes, hread⟩ := h
  exact ⟨bytes, hbytes, hchanges.read hlast hread⟩

/-- The disk changes, but for the last manifest, and the run has nothing to do with it. -/
theorem Gathered.quiet (h : Gathered run s s' m) (hmemory : s''.memory = s'.memory)
    (hhere : s''.world.here = s'.world.here)
    (hchanges : Changes (IsNear s.memory.root s.world.here run) (IsElsewhere s.memory.root s.world.here)
      s'.world.tree s''.world.tree)
    (hvacant : Vacant s.memory.root s.world.here run s'.world.tree →
      Vacant s.memory.root s.world.here run s''.world.tree) : Gathered run s s'' m := by
  have hlast : ¬ IsElsewhere s.memory.root s.world.here
      (place s.world.here (Backups.lastPath s.memory.root)) :=
    fun hnot => hnot (Backups.place_root_prefix_last _ _)
  refine ⟨hmemory ▸ h.root, hmemory ▸ h.site, hhere.trans h.here, hmemory ▸ h.lookup, h.runId,
    hmemory ▸ h.others, h.changes.trans (hchanges.mono (fun _ => id) fun _ => Or.inl ∘ Or.inr),
    fun hentries => ?_, fun hentries => hchanges.dirs _ (h.made hentries), fun hentries => ?_, ?_⟩
  · obtain ⟨hnothing, hunnoted, hcalm⟩ := h.idle hentries
    exact ⟨hvacant hnothing, hmemory ▸ hunnoted,
      hcalm.trans (hchanges.mono (fun _ => id) fun _ => Or.inr)⟩
  · obtain ⟨t, hcalm, hdirs, hnoted⟩ := h.noted hentries
    exact ⟨t, hcalm, fun loc hdir => hchanges.dirs loc (hdirs loc hdir), hmemory ▸ hnoted⟩
  · rw [hchanges.bytes? hlast]
    exact h.last.imp_left fun ⟨m', hrunId, hpublished⟩ =>
      ⟨m', hrunId, hpublished.changes hchanges hlast⟩

/-- Directories made for a run are not made elsewhere. -/
theorem isNear_of_onWay_parent {parts : List Text} (hrun : IsName run)
    (hparts : ∀ part ∈ parts, IsName part)
    (h : OnWay here (Backups.kept root run parts).parent loc) : IsNear root here run loc :=
  Or.inl (isOf_of_onWay_parent hrun hparts h)

theorem isOwn_of_mem {rest : List Text} (h : loc = place here root ++ run :: rest) :
    IsOwn root here run loc := by
  refine Or.inl ?_
  rw [h, List.prefix_append_right_inj, List.cons_prefix_cons]
  exact ⟨rfl, List.nil_prefix⟩

/-- A run notes what it makes obsolete once it has made its first copy, before anything of it has
been published. Later it keeps to that. -/
theorem Gathered.noted_copied (h : Gathered run s s' m)
    (hcopied : Changes (IsNear s.memory.root s.world.here run)
      (IsOwn s.memory.root s.world.here run) s'.world.tree t) :
    ∃ u, Changes (IsNear s.memory.root s.world.here run) (IsOwn s.memory.root s.world.here run)
        s.world.tree u ∧
      (∀ loc, u.node? loc = some .dir → t.node? loc = some .dir) ∧
      (Backups.noted s.memory.root run s.world.here t s'.memory.replaced).lookup run =
        some (Backups.obsolete? s.memory.root run s.world.here u) := by
  rw [lookup_noted]
  by_cases hentries : m.entries = []
  · obtain ⟨-, hunnoted, hidle⟩ := h.idle hentries
    exact ⟨t, hidle.trans hcopied, fun _ => id, by rw [hunnoted, Option.getD_none]⟩
  · obtain ⟨u, hidle, hdirs, hnoted⟩ := h.noted hentries
    exact ⟨u, hidle, fun loc hdir => hcopied.dirs loc (hdirs loc hdir),
      by rw [hnoted, Option.getD_some]⟩

/-- A copy more. Whether the manifest has become the last one depends on how that went. -/
theorem Gathered.keeps {entry : BackupEntry} {bytes : Bytes} {rest : List Text} {published : Prop}
    (h : Gathered run s s' m) (hlast : run ≠ Backups.lastFileName) (hrest : rest ≠ [])
    (hhere : s''.world.here = s'.world.here)
    (hcopied : Changes (IsNear s.memory.root s.world.here run)
      (· = place s.world.here s.memory.root ++ run :: rest) s'.world.tree t)
    (hcopy : t.bytes? (place s.world.here s.memory.root ++ run :: rest) = some bytes)
    (hmemory : s''.memory = { Backups.setRun run (Backups.listing m entry) s'.memory with
      replaced := Backups.noted s.memory.root run s.world.here t s'.memory.replaced })
    (hwritten : Changes (IsNear s.memory.root s.world.here run)
      (fun loc => loc = place s.world.here s.memory.root ++ [run, Backups.manifestName run] ∨
        published ∧ loc = place s.world.here (Backups.lastPath s.memory.root)) t s''.world.tree)
    (hpublished : published →
      Published s.memory.root s.world.here (Backups.listing m entry) s''.world.tree) :
    Gathered run s s'' (Backups.listing m entry) := by
  have hcalm : Changes (IsNear s.memory.root s.world.here run)
      (IsOwn s.memory.root s.world.here run) s'.world.tree t :=
    hcopied.mono (fun _ => id) fun _ => isOwn_of_mem
  have hafter : Changes (IsNear s.memory.root s.world.here run)
      (fun loc => IsOwn s.memory.root s.world.here run loc ∨
        loc = place s.world.here (Backups.lastPath s.memory.root)) t s''.world.tree :=
    hwritten.mono (fun _ => id) fun _ => Or.imp isOwn_of_mem And.right
  have hnotLast : ∀ rest, place s.world.here (Backups.lastPath s.memory.root) ≠
      place s.world.here s.memory.root ++ run :: rest :=
    fun rest => (Backups.ne_place_lastPath _ _ hlast).symm
  have hlistingNe : (Backups.listing m entry).entries ≠ [] :=
    List.append_ne_nil_of_right_ne_nil _ (List.cons_ne_nil _ _)
  refine ⟨?_, ?_, hhere.trans h.here, ?_, h.runId, fun other hother => ?_,
    (h.changes.trans (hcalm.mono (fun _ => id) fun _ => Or.inl)).trans hafter,
    fun hnil => absurd hnil hlistingNe, fun _ => hwritten.dirs _ ?_, fun _ => ?_, ?_⟩
  · rw [hmemory]
    exact h.root
  · rw [hmemory]
    exact h.site
  · rw [hmemory]
    exact Backups.lookup_setRun _ _ _
  · rw [hmemory]
    obtain ⟨hruns, hreplaced⟩ := h.others other hother
    exact ⟨(lookup_setRun_ne hother _ _).trans hruns, (lookup_noted_ne hother _).trans hreplaced⟩
  · -- the copy lies in the directory of the run, and so the directory is there
    have hthere : t.node? (place s.world.here s.memory.root ++ [run] ++ rest) ≠ none := by
      rw [List.append_assoc, List.singleton_append, Tree.bytes?_eq_some.mp hcopy]
      exact Option.some_ne_none _
    exact hcopied.wellFormed.dir_above hrest hthere
  · obtain ⟨u, hidle, hdirs, hnoted⟩ := h.noted_copied hcalm
    rw [hmemory]
    exact ⟨u, hidle, fun loc hdir => hwritten.dirs loc (hdirs loc hdir), hnoted⟩
  · by_cases hdone : published
    · exact Or.inl ⟨Backups.listing m entry, h.runId, hpublished hdone⟩
    · have hnot : ¬ (place s.world.here (Backups.lastPath s.memory.root) =
          place s.world.here s.memory.root ++ [run, Backups.manifestName run] ∨
          published ∧ place s.world.here (Backups.lastPath s.memory.root) =
            place s.world.here (Backups.lastPath s.memory.root)) :=
        fun hor => hor.elim (hnotLast _) fun hand => hdone hand.1
      rw [hwritten.bytes? hnot, hcopied.bytes? (hnotLast rest)]
      exact h.last.imp_left fun ⟨m', hrunId, hpub⟩ =>
        ⟨m', hrunId, (hpub.changes hcopied (hnotLast rest)).changes hwritten hnot⟩

/-- One more snapshot. -/
theorem Gathered.snapshot {storage : Storage Sim} (h : Gathered run s s' m) (hbegun : Begun run s)
    (hs : storage.OverDisk) (hpath : path.IsProper)
    (hsite : place s'.world.here path ≠ place s'.world.here s'.memory.site) :
    ∃ m', Gathered run s (play (Backups.snapshot storage run path) s').2 m' := by
  have hid := hbegun.isId
  have hsound : s'.world.IsSound := ⟨h.changes.wellFormed, h.here ▸ hbegun.sound.here⟩
  have hresolve : ∀ part ∈ (Tree.resolve s'.world.here path).parts, IsName part :=
    Tree.isName_of_mem_place hsound.here hpath
  obtain ⟨parts, hlocation, hparts, hne⟩ := Backups.exists_location s'.memory.root
    (Tree.resolve s'.world.here s'.memory.site) hid.isName hresolve
  replace hne : parts ≠ [] := hne hsite
  obtain ⟨hhere, hsnaps⟩ := snapshot_snaps hs hsound (by rwa [h.root, h.here]) h.lookup h.runId hpath
    hne hparts hlocation
  have hway : ∀ loc, OnWay s.world.here (Backups.kept s.memory.root run parts).parent loc →
      IsNear s.memory.root s.world.here run loc :=
    fun loc => isNear_of_onWay_parent hid.isName hparts
  cases hsnaps with
  | rests hmemory hlisted hchanges hvacant =>
      rw [h.root, h.here] at hchanges hvacant
      exact ⟨m, h.quiet hmemory hhere
        (hchanges.mono (fun loc hloc => hway loc hloc.1) fun _ => False.elim) hvacant⟩
  | @keeps entry bytes goal t hentry hunlisted hread hgoal hcopied hcopy hmemory hwritten hpublished =>
      rw [h.root, h.here] at hgoal hcopied hmemory hwritten hpublished
      have hgoalOwn : ∃ rest, rest ≠ [] ∧ goal = place s.world.here s.memory.root ++ run :: rest := by
        rcases hgoal with rfl | ⟨-, name, rfl⟩
        · exact ⟨parts, hne, rfl⟩
        · exact ⟨parts ++ [name], List.append_ne_nil_of_left_ne_nil hne _, List.append_assoc _ _ _⟩
      obtain ⟨rest, hrest, rfl⟩ := hgoalOwn
      exact ⟨_, h.keeps hid.ne_last hrest hhere (hcopied.mono hway fun _ => id) hcopy hmemory
        (hwritten.mono hway fun _ => id) fun hresult => (hpublished _ hresult).2⟩

/-- A run that takes snapshots. -/
theorem Gathers.exists_gathered (h : Gathers run s paths s') (hbegun : Begun run s) :
    ∃ m, Gathered run s s' m := by
  induction h with
  | begun => exact hbegun.gathered
  | snapshot h hs hpath hsite ih =>
      obtain ⟨m, hgathered⟩ := ih
      exact hgathered.snapshot hbegun hs hpath hsite
  | @elsewhere paths s' h t hchanges ih =>
      obtain ⟨m, hgathered⟩ := ih
      rw [hgathered.root, hgathered.here] at hchanges
      refine ⟨m, hgathered.quiet rfl rfl (hchanges.mono (fun _ => Or.inr) fun _ => id)
        fun hvacant => ?_⟩
      have hinside : ∀ rest, ¬ IsElsewhere s.memory.root s.world.here
          (place s.world.here s.memory.root ++ run :: rest) :=
        fun rest hnot => hnot (List.prefix_append _ _)
      exact hvacant.of_changes hchanges hinside hinside

end Gathering

end Stencil
