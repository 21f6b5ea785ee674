import Stencil.Proofs.Disk.Changes
import Stencil.Proofs.Undo.Kills

/-!
# What one operation of a run makes of a disk

A snapshot leaves everything alone but for directories, or it adds a copy, notes the directory
made obsolete and writes the manifest (`snapshot_snaps`). The end of a run writes the manifest
once more and then removes what has been noted (`finalize_finishes`). As long as a run has not
listed a file nothing has its name.
-/

namespace Stencil

open Stencil.Path (IsName)
open Stencil.Tree (place OnWay Grows Changes WellFormed)

section Effects

variable {root path : Path} {here loc : Loc} {run : Text} {parts : List Text} {t u : Tree} {w : World}
  {m : Manifest} {storage : Storage Sim} {s s' : Standing Backups} {P T : Loc → Prop}

/-! ## The directory of a run -/

/-- Nothing has the name of the run. -/
def Vacant (root : Path) (here : Loc) (run : Text) (t : Tree) : Prop :=
  ∀ rest, t.node? (place here root ++ run :: rest) = none

theorem kept_parent_nil (root : Path) (run : Text) : (Backups.kept root run []).parent = root := by
  rw [Path.parent, Backups.kept, List.dropLast_concat]

theorem onWay_nil_of_root (h : OnWay here root loc) : OnWay here (Backups.kept root run []) loc := by
  rw [← kept_parent_nil root run] at h
  exact h.of_parent

/-- The way to the directory above a file that a run keeps does not pass the file. -/
theorem IsId.not_onWay_parent (h : IsId root here run) (hparts : ∀ part ∈ parts, IsName part) :
    ¬ OnWay here (Backups.kept root run parts).parent (place here root ++ run :: parts) := by
  intro hway
  by_cases hne : parts = []
  · subst hne
    rw [kept_parent_nil] at hway
    exact h.not_onWay hway
  · rw [parent_kept hne] at hway
    have hnames : ∀ part ∈ parts.dropLast, IsName part :=
      fun part hpart => hparts part (List.mem_of_mem_dropLast hpart)
    rcases onWay_kept h.isName hnames hway with hroot | ⟨q, hq, heq⟩
    · exact h.not_onWay hroot
    · obtain rfl := (List.cons.inj (List.append_cancel_left heq)).2
      have hlength := hq.length_le
      have := List.length_pos_iff.mpr hne
      rw [List.length_dropLast] at hlength
      omega

theorem Vacant.of_grows (h : Vacant root here run t) (hid : IsId root here run)
    (hgrows : Grows (OnWay here root) t u) : Vacant root here run u := fun rest => by
  rw [hgrows.node?_of_not hid.not_onWay]
  exact h rest

theorem Vacant.of_changes (h : Vacant root here run t) (hchanges : Changes P T t u)
    (hP : ∀ rest, ¬ P (place here root ++ run :: rest))
    (hT : ∀ rest, ¬ T (place here root ++ run :: rest)) : Vacant root here run u := fun rest =>
  hchanges.vacant (hP rest) (hT rest) (h rest)

theorem makeDir_of_free {p : Path} {name : Text} (hname : p.parts.getLast? = some name)
    (hdots : name ≠ Path.parentName) (hparent : t.isDir here p.parent = true)
    (hfree : t.node? (place here p) = none) : ∃ made, t.makeDir here p = .ok made := by
  have hplace : place here p = place here p.parent ++ [name] := Tree.place_eq_append hname hdots
  rw [hplace] at hfree
  rw [Tree.makeDir, hname]
  dsimp only
  rw [Tree.look_eq_ok.mpr ⟨rfl, Tree.isDir_iff.mp hparent⟩]
  dsimp only
  rw [decide_eq_false hdots, hfree, Option.isSome_none, Bool.or_false, if_neg Bool.false_ne_true]
  exact ⟨_, rfl⟩

/-- If directories for a run cannot be made then none has been. -/
theorem Vacant.makeDirs (h : Vacant root here run t) (ht : t.WellFormed) (hid : IsId root here run)
    {parts : List Text} (hparts : ∀ part ∈ parts, IsName part) {e : OsError}
    (hfails : (t.makeDirs here (Backups.kept root run parts)).2 = .error e) :
    Vacant root here run (t.makeDirs here (Backups.kept root run parts)).1 := by
  have hne : (Backups.kept root run parts).parts ≠ [] :=
    List.append_ne_nil_of_right_ne_nil _ (List.cons_ne_nil _ _)
  have hlast : ∃ name, (Backups.kept root run parts).parts.getLast? = some name ∧ IsName name := by
    refine ⟨_, List.getLast?_eq_some_getLast hne, ?_⟩
    have heq : (Backups.kept root run parts).parts.getLast hne =
        (run :: parts).getLast (List.cons_ne_nil _ _) := List.getLast_append_right _
    rw [heq]
    exact List.forall_mem_cons.mpr ⟨hid.isName, hparts⟩ _ (List.getLast_mem _)
  obtain ⟨name, hname, hisName⟩ := hlast
  -- once the directory above is there the directory itself can be made
  have hnext : ∀ u, Grows (OnWay here (Backups.kept root run parts).parent) t u →
      u.isDir here (Backups.kept root run parts).parent = true →
      ∃ made, u.makeDir here (Backups.kept root run parts) = .ok made := by
    intro u hgrows hdir
    refine makeDir_of_free hname hisName.ne_parentName hdir ?_
    rw [Backups.place_kept here root hid.isName hparts,
      hgrows.node?_of_not (hid.not_onWay_parent hparts)]
    exact h parts
  have habove : ∀ u e, t.makeDirs here (Backups.kept root run parts).parent = (u, .error e) →
      Vacant root here run u := by
    intro u e hu
    by_cases hnil : parts = []
    · subst hnil
      rw [kept_parent_nil] at hu
      have hgrows := (Tree.makeDirs_spec ht here root).1
      rw [hu] at hgrows
      exact h.of_grows hid hgrows
    · rw [parent_kept hnil] at hu
      have hnames : ∀ part ∈ parts.dropLast, IsName part :=
        fun part hpart => hparts part (List.mem_of_mem_dropLast hpart)
      have hvacant := Vacant.makeDirs h ht hid hnames (congrArg Prod.snd hu)
      rwa [hu] at hvacant
  rw [Tree.makeDirs] at hfails ⊢
  cases hmade : t.makeDir here (Backups.kept root run parts) with
  | ok made =>
      rw [hmade] at hfails
      cases hfails
  | error errno =>
      cases errno with
      | noEntry =>
          rw [hmade] at hfails
          dsimp only at hfails ⊢
          rw [dif_neg hne] at hfails ⊢
          rcases hmakes : t.makeDirs here (Backups.kept root run parts).parent with ⟨above, e' | _⟩
          · exact habove above e' hmakes
          · obtain ⟨hgrows, -, hdir⟩ :=
              Tree.makeDirs_spec ht here (Backups.kept root run parts).parent
            rw [hmakes] at hfails hgrows hdir
            obtain ⟨made, hagain⟩ := hnext above hgrows (hdir rfl)
            dsimp only at hfails
            rw [hagain] at hfails
            cases hfails
      | _ => exact h
termination_by parts.length
decreasing_by
  have := List.length_pos_iff.mpr hnil
  rw [List.length_dropLast]
  omega

/-- If a copy cannot be made for a run then nothing has been. -/
theorem Vacant.copy (h : Vacant root here run t) (ht : t.WellFormed) (hid : IsId root here run)
    (hne : parts ≠ []) (hparts : ∀ part ∈ parts, IsName part) {source : Path} {e : OsError}
    (hfails : (t.copy here source (Backups.kept root run parts)).2 = .error e) :
    Vacant root here run (t.copy here source (Backups.kept root run parts)).1 := by
  have hnames : ∀ part ∈ parts.dropLast, IsName part :=
    fun part hpart => hparts part (List.mem_of_mem_dropLast hpart)
  have hplace := Backups.place_kept here root hid.isName hparts
  rw [Tree.copy] at hfails ⊢
  split at hfails
  · next from_ bytes hlook =>
    obtain ⟨rfl, -, hfile⟩ := Tree.look_eq_ok.mp hlook
    rw [parent_kept hne] at hfails ⊢
    rcases hmakes : t.makeDirs here (Backups.kept root run parts.dropLast) with ⟨u, e' | _⟩
    · have hvacant := h.makeDirs ht hid hnames (congrArg Prod.snd hmakes)
      rw [hmakes] at hvacant
      exact hvacant
    · -- where there is no copy yet nothing is in the way of one
      obtain ⟨hgrows, -, hdir⟩ := Tree.makeDirs_spec ht here (Backups.kept root run parts.dropLast)
      rw [hmakes] at hfails hgrows hdir
      rw [← parent_kept hne] at hgrows hdir
      have hfree : u.node? (place here (Backups.kept root run parts)) = none := by
        rw [hplace, hgrows.node?_of_not (hid.not_onWay_parent hparts)]
        exact h parts
      have hnotDir : u.isDir here (Backups.kept root run parts) = false :=
        Bool.eq_false_iff.mpr fun hdir => by
          rw [(Tree.isDir_iff.mp hdir).2] at hfree
          cases hfree
      have hlast : ∃ name, (Backups.kept root run parts).parts.getLast? = some name :=
        ⟨_, List.getLast?_eq_some_getLast
          (List.append_ne_nil_of_right_ne_nil _ (List.cons_ne_nil _ _))⟩
      obtain ⟨name, hname⟩ := hlast
      have hother : place here (Backups.kept root run parts) ≠ place here source := fun heq => by
        have hnone := h parts
        rw [← hplace, heq, hfile] at hnone
        cases hnone
      dsimp only at hfails
      rw [hnotDir, if_neg Bool.false_ne_true, (Tree.locate_iff hname).mpr (hdir rfl)] at hfails
      dsimp only at hfails
      rw [if_neg hother, hfree] at hfails
      cases hfails
  · exact h

/-! ## Manifests -/

theorem lastPath_parent (root : Path) : (Backups.lastPath root).parent = root := by
  rw [Backups.lastPath_eq, Path.parent, List.dropLast_concat]

/-- A manifest is written in the directory of its run, and becomes the last one if that goes well.
-/
theorem persist_changes {result : Except Failure Unit} {w' : World} (hw : w.tree.WellFormed)
    (hid : IsId root w.here m.runId)
    (hrun : (Backups.persist root m : Act Sim Unit).run.run w = (result, w')) :
    Changes (OnWay w.here (Backups.kept root m.runId []))
        (fun loc => loc = place w.here root ++ [m.runId, Backups.manifestName m.runId] ∨
          result = .ok () ∧ loc = place w.here (Backups.lastPath root)) w.tree w'.tree ∧
      (result = .ok () → Published root w.here m w'.tree ∧
        w'.tree.node? (place w.here root ++ [m.runId]) = some .dir) := by
  obtain ⟨hparent, hplace⟩ := runManifest_spec root w.here hid.isName
  have hkeep : ∀ bytes, Changes (OnWay w.here (Backups.kept root m.runId []))
      (fun loc => loc = place w.here root ++ [m.runId, Backups.manifestName m.runId] ∨
        result = .ok () ∧ loc = place w.here (Backups.lastPath root)) w.tree
      (w.after (Backups.keeps root m bytes)).tree := by
    intro bytes
    obtain ⟨hchanges, -⟩ := Tree.replace_changes hw w.here w.tag
      (Backups.runManifestPath root m.runId) bytes
    rw [hparent, hplace] at hchanges
    exact hchanges.mono (fun _ => id) fun loc h => Or.inl h.2
  -- the manifest lies in the directory of the run, and so the directory is there
  have hmade : ∀ bytes, (w.tree.replace w.here w.tag (Backups.runManifestPath root m.runId) bytes).2 =
      .ok () → (w.after (Backups.keeps root m bytes)).tree.node? (place w.here root ++ [m.runId]) =
        some .dir := by
    intro bytes hdone
    have hread :=
      (Tree.replace_changes hw w.here w.tag (Backups.runManifestPath root m.runId) bytes).2 hdone
    have hnode := (Tree.read_eq_ok.mp hread).2
    rw [hplace] at hnode
    refine (hkeep bytes).wellFormed.dir_above (List.cons_ne_nil (Backups.manifestName m.runId) []) ?_
    rw [List.append_assoc, List.singleton_append]
    exact fun hnone => by cases hnode.symm.trans hnone
  rcases Backups.persist_cases root m w with
    ⟨-, hcase⟩ | ⟨bytes, hbytes, ⟨e, -, hcase⟩ | ⟨hkept, hcase⟩⟩
  · obtain ⟨rfl, rfl⟩ := Prod.mk.inj (hrun.symm.trans hcase)
    exact ⟨.refl hw, fun heq => by cases heq⟩
  · obtain ⟨rfl, rfl⟩ := Prod.mk.inj (hrun.symm.trans hcase)
    exact ⟨hkeep bytes, fun heq => by cases heq⟩
  · obtain ⟨rfl, rfl⟩ := Prod.mk.inj (hrun.symm.trans hcase)
    obtain ⟨hchanges, hread⟩ := Tree.replace_changes (hkeep bytes).wellFormed w.here w.tag
      (Backups.lastPath root) bytes
    rw [lastPath_parent] at hchanges
    have hdone : ∀ {result : Except OsError Unit}, result.mapError Failure.os = .ok () →
        result = .ok () := by
      rintro (e | _) heq
      · cases heq
      · rfl
    refine ⟨(hkeep bytes).trans
        (hchanges.mono (fun _ => onWay_nil_of_root) fun loc h => Or.inr ⟨?_, h.2⟩),
      fun heq => ⟨⟨bytes, hbytes, hread (hdone heq)⟩, hchanges.dirs _ (hmade bytes hkept)⟩⟩
    exact congrArg (Except.mapError Failure.os) h.1

/-! ## Snapshots -/

/-- What a snapshot of a file may come to whose copy is to lie in a place in the directory of the
run. -/
inductive Snaps (run : Text) (path : Path) (parts : List Text) (m : Manifest) (s : Standing Backups)
    (result : Except Failure BackupEntry) (s' : Standing Backups) : Prop
  /-- The file has been copied already, or it cannot be. -/
  | rests (hmemory : s'.memory = s.memory)
      (hlisted : ∀ entry, result = .ok entry → entry ∈ m.entries)
      (hchanges : Changes
        (fun loc => OnWay s.world.here (Backups.kept s.memory.root run parts).parent loc ∧
          ∃ bytes, s.world.tree.read s.world.here path = .ok bytes)
        (fun _ => False) s.world.tree s'.world.tree)
      (hvacant : Vacant s.memory.root s.world.here run s.world.tree →
        Vacant s.memory.root s.world.here run s'.world.tree)
  /-- The copy lies where it was to go, unless there has been a directory; it is listed, the
  directory made obsolete is noted, and the manifest is written if that goes well. -/
  | keeps {entry : BackupEntry} {bytes : Bytes} {goal : Loc} {t : Tree}
      (hentry : entry = Backups.entryFor s.memory.root s.world.here s.memory.site run path)
      (hunlisted : ∀ e ∈ m.entries, e.file ≠ entry.file)
      (hread : s.world.tree.read s.world.here path = .ok bytes)
      (hgoal : goal = place s.world.here s.memory.root ++ run :: parts ∨
        s.world.tree.node? (place s.world.here s.memory.root ++ run :: parts) = some .dir ∧
          ∃ name, goal = place s.world.here s.memory.root ++ run :: parts ++ [name])
      (hcopied : Changes (OnWay s.world.here (Backups.kept s.memory.root run parts).parent) (· = goal)
        s.world.tree t)
      (hcopy : t.bytes? goal = some bytes)
      (hmemory : s'.memory = { Backups.setRun run (Backups.listing m entry) s.memory with
        replaced := Backups.noted s.memory.root run s.world.here t s.memory.replaced })
      (hwritten : Changes (OnWay s.world.here (Backups.kept s.memory.root run parts).parent)
        (fun loc => loc = place s.world.here s.memory.root ++ [run, Backups.manifestName run] ∨
          result = .ok entry ∧ loc = place s.world.here (Backups.lastPath s.memory.root)) t
        s'.world.tree)
      (hpublished : ∀ entry', result = .ok entry' → entry' = entry ∧
        Published s.memory.root s.world.here (Backups.listing m entry) s'.world.tree)

theorem isOf_of_onWay_parent (hrun : IsName run) (hparts : ∀ part ∈ parts, IsName part)
    (h : OnWay here (Backups.kept root run parts).parent loc) : IsOf root here run loc :=
  isOf_of_onWay_kept hrun hparts h.of_parent

/-- The way to any file that a run keeps passes the directory of the run. -/
theorem onWay_parent_of_nil (hne : parts ≠ []) (h : OnWay here (Backups.kept root run []) loc) :
    OnWay here (Backups.kept root run parts).parent loc := by
  obtain ⟨q, hq, rfl⟩ := h
  refine ⟨q, hq.trans ?_, rfl⟩
  rw [parent_kept hne, Backups.kept, Backups.kept, List.prefix_append_right_inj]
  exact List.cons_prefix_cons.mpr ⟨rfl, List.nil_prefix⟩

/-- A snapshot of any file but one that lies where the site should be. -/
theorem snapshot_snaps (hs : storage.OverDisk) (hw : s.world.IsSound)
    (hid : IsId s.memory.root s.world.here run) (hlookup : s.memory.runs.lookup run = some m)
    (hrunId : m.runId = run) (hpath : path.IsProper) (hne : parts ≠ [])
    (hparts : ∀ part ∈ parts, IsName part)
    (hlocation : Backups.location s.memory.root (Tree.resolve s.world.here s.memory.site) run
      (Tree.resolve s.world.here path) = Backups.kept s.memory.root run parts) :
    (play (Backups.snapshot storage run path) s).2.world.here = s.world.here ∧
      Snaps run path parts m s (play (Backups.snapshot storage run path) s).1
        (play (Backups.snapshot storage run path) s).2 := by
  have hplace := Backups.place_kept s.world.here s.memory.root hid.isName hparts
  rcases Backups.snapshot_cases hs hlookup path with
    ⟨entry, hentry, -, hplay⟩ | ⟨target, htarget, hunlisted, hcases⟩
  · rw [hplay]
    exact ⟨rfl, .rests rfl (fun entry' heq => Except.ok.inj heq ▸ hentry) (.refl hw.tree) id⟩
  · obtain rfl := htarget.trans hlocation
    rcases hcases with ⟨e, w', hplay, rfl | ⟨hfails, rfl⟩⟩ |
      ⟨hdone, entry, events, w₁, hentry, htrail, haside, hplay⟩
    · rw [hplay]
      exact ⟨rfl, .rests rfl (fun entry heq => by cases heq) (.refl hw.tree) id⟩
    · rw [hplay]
      refine ⟨rfl, .rests rfl (fun entry heq => by cases heq) ?_ fun hvacant => ?_⟩
      · rcases Tree.copy_changes hw.tree s.world.here hpath
          (Backups.kept s.memory.root run parts) with ⟨-, -, hchanges⟩ | ⟨-, -, hdone, -⟩
        · exact hchanges
        · cases hfails.symm.trans hdone
      · exact hvacant.copy hw.tree hid hne hparts hfails
    · rcases Tree.copy_changes hw.tree s.world.here hpath
        (Backups.kept s.memory.root run parts) with
        ⟨e, hfails, -⟩ | ⟨bytes, goal, -, hread, hgoal, -, hchanges, hbytes⟩
      · cases hfails.symm.trans hdone
      · rw [hplace] at hgoal
        have hnotWay := hid.not_onWay_parent hparts
        rcases hpersist : (Backups.persist s.memory.root (Backups.listing m entry) :
          Act Sim Unit).run.run w₁ with ⟨result, w₂⟩
        have htree₁ : w₁.tree = (s.world.tree.copy s.world.here path
            (Backups.kept s.memory.root run parts)).1 :=
          htrail.tree_eq fun event he => Event.isIdle_of_isAside (haside event he)
        have hhere₁ : w₁.here = s.world.here := htrail.here
        have hid₁ : IsId s.memory.root w₁.here (Backups.listing m entry).runId := by
          rw [hhere₁]
          exact hrunId ▸ hid
        obtain ⟨hwritten, hpublished⟩ := persist_changes (htree₁ ▸ hchanges.wellFormed) hid₁ hpersist
        obtain ⟨writes, hwrites, -⟩ := Backups.persist_trail s.memory.root
          (Backups.listing m entry) w₁
        have hrunId' : (Backups.listing m entry).runId = run := hrunId
        rw [hpersist] at hplay hwrites
        rw [hhere₁, htree₁, hrunId'] at hwritten
        rw [hhere₁] at hpublished
        rw [hplay]
        refine ⟨hwrites.here.trans hhere₁, .keeps hentry (hentry ▸ hunlisted) hread
          (hgoal.imp_right fun h => ⟨h.1.resolve_left hnotWay, h.2⟩) hchanges hbytes rfl
          (hwritten.mono (fun _ => onWay_parent_of_nil hne) fun loc => Or.imp_right fun h => ?_)
          fun entry' heq => ?_⟩
        · rw [h.1]
          exact ⟨rfl, h.2⟩
        · cases result with
          | error e => cases heq
          | ok _ => exact ⟨(Except.ok.inj heq).symm, (hpublished rfl).1⟩

/-! ## Endings -/

/-- What the end of a run may come to. -/
inductive Finishes (run : Text) (m : Manifest) (s : Standing Backups) (result : Except Failure Path)
    (s' : Standing Backups) : Prop
  /-- The manifest cannot be written, and so nothing is removed. -/
  | fails (hresult : ∃ e, result = .error e) (hmemory : s'.memory = Backups.dropRun run s.memory)
      (hwritten : Changes (OnWay s.world.here (Backups.kept s.memory.root run []))
        (· = place s.world.here s.memory.root ++ [run, Backups.manifestName run]) s.world.tree
        s'.world.tree)
  /-- The manifest becomes the last one, and then the directory that has been noted is removed. -/
  | ends {t : Tree} (hresult : result = .ok (Backups.lastPath s.memory.root))
      (hmemory : s'.memory = Backups.dropReplaced run (Backups.dropRun run s.memory))
      (hwritten : Changes (OnWay s.world.here (Backups.kept s.memory.root run []))
        (fun loc => loc = place s.world.here s.memory.root ++ [run, Backups.manifestName run] ∨
          loc = place s.world.here (Backups.lastPath s.memory.root)) s.world.tree t)
      (hpublished : Published s.memory.root s.world.here m t)
      (hremoved : s'.world.tree = (s.memory.replaced.lookup run).join.elim t
        fun dir => (t.removeTree s.world.here dir).1)
      (hmade : t.node? (place s.world.here s.memory.root ++ [run]) = some .dir)

theorem finalize_finishes (hw : s.world.tree.WellFormed)
    (hid : IsId s.memory.root s.world.here run) (hlookup : s.memory.runs.lookup run = some m)
    (hrunId : m.runId = run) :
    (play (Backups.finalize run) s).2.world.here = s.world.here ∧
      Finishes run m s (play (Backups.finalize run) s).1 (play (Backups.finalize run) s).2 := by
  obtain ⟨result, w₁, hpersist, hends⟩ := Backups.finalize_eq hlookup
  obtain ⟨hwritten, hpublished⟩ := persist_changes hw (hrunId ▸ hid) hpersist
  obtain ⟨writes, hwrites, -⟩ := Backups.persist_trail s.memory.root m s.world
  rw [hpersist] at hwrites
  rw [hrunId] at hwritten
  have hhere₁ : w₁.here = s.world.here := hwrites.here
  rcases hends with ⟨e, rfl, hplay⟩ | ⟨rfl, logs, w₂, hlogs, htrail, hplay⟩
  · rw [hplay]
    refine ⟨hhere₁, .fails ⟨e, rfl⟩ rfl (hwritten.mono (fun _ => id) fun loc h => ?_)⟩
    exact h.resolve_right fun hok => by cases hok.1
  · rw [hplay]
    refine ⟨htrail.here.trans hhere₁, .ends rfl rfl
      (hwritten.mono (fun _ => id) fun loc => Or.imp_right And.right) (hpublished rfl).1 ?_
      (hrunId ▸ (hpublished rfl).2)⟩
    have hquiet : ∀ t, World.replay w₁.here w₁.tag t logs = t :=
      World.replay_of_isIdle (fun event he => Event.isIdle_of_isLog (hlogs event he)) _ _
    show w₂.tree = _
    rw [htrail.tree, ← hhere₁]
    cases (s.memory.replaced.lookup run).join with
    | none => exact hquiet _
    | some dir => exact hquiet _

end Effects

end Stencil
