import Stencil.Proofs.Undo.Courses
import Stencil.Proofs.Undo.Restoring
import Stencil.Proofs.Undo.Snapshots

/-!
# What runs keep of the files below the site

Directories for copies are made only where the site has directories (`Mirrors`), and so a copy of
a file below the site always lies where it was to go (`snapshot_copies`). If all entries of the
last manifest have their copies, they can be restored (`restore_copies`); if one has lost its
copy, they cannot (`restore_lost`).
-/

namespace Stencil

open Stencil.Path (IsName)
open Stencil.Tree (place OnWay Changes WellFormed)

section Shelves

variable {root path : Path} {here site loc : Loc} {run id : Text} {parts : List Text} {t t' : Tree}
  {m : Manifest} {e : BackupEntry} {entries : List BackupEntry} {s s' : Standing Backups} {w : World}
  {P T : Loc → Prop}

/-! ## Directories for copies -/

/-- Where a run keeps a directory for copies the site has one, too, outside the backup root. -/
def Mirrors (root : Path) (here site : Loc) (id : Text) (t : Tree) : Prop :=
  ∀ q, q ≠ [] → t.node? (place here root ++ id :: q) = some .dir →
    t.node? (site ++ q) = some .dir ∧ ¬ place here root <+: site ++ q

theorem Mirrors.of_vacant (h : Vacant root here id t) : Mirrors root here site id t := by
  intro q _ hdir
  rw [h q] at hdir
  cases hdir

theorem Mirrors.changes (h : Mirrors root here site id t) (hchanges : Changes P T t t')
    (hnew : ∀ q, q ≠ [] → P (place here root ++ id :: q) →
      t.node? (site ++ q) = some .dir ∧ ¬ place here root <+: site ++ q) :
    Mirrors root here site id t' := by
  intro q hne hdir
  refine And.imp_left (hchanges.dirs _) ?_
  rcases hchanges.grown _ hdir with hold | hP
  · exact h q hne hold
  · exact hnew q hne hP

/-- Directories for the copy of a file that is there. -/
theorem Mirrors.onWay (h : Mirrors root here site id t) (ht : t.WellFormed) (hid : IsId root here id)
    (hrun : IsName run) (hsource : IsSource root here site run parts)
    (hthere : t.node? (site ++ parts) ≠ none)
    (hchanges : Changes (OnWay here (Backups.kept root run parts).parent) T t t') :
    Mirrors root here site id t' := by
  refine h.changes hchanges fun q _ hway => ?_
  rw [parent_kept hsource.ne_nil] at hway
  have hnames : ∀ part ∈ parts.dropLast, IsName part := fun part hpart =>
    hsource.names part (List.mem_append_right _ (List.mem_of_mem_dropLast hpart))
  rcases onWay_kept hrun hnames hway with hroot | ⟨q', hq', heq⟩
  · exact absurd hroot hid.not_onWay
  · obtain ⟨rfl, rfl⟩ := List.cons.inj (List.append_cancel_left heq)
    refine ⟨hsource.dirs ht hthere hq', fun hstarts => hsource.outside (hstarts.trans ?_)⟩
    exact (List.prefix_append_right_inj _).mpr (hq'.trans (List.dropLast_prefix _))

/-- Nothing is mirrored in the directory of a run itself. -/
theorem Mirrors.onWay_nil (h : Mirrors root here site id t) (hid : IsId root here id)
    (hrun : IsName run)
    (hchanges : Changes (OnWay here (Backups.kept root run [])) T t t') :
    Mirrors root here site id t' := by
  refine h.changes hchanges fun q hne hway => ?_
  rcases onWay_kept hrun (fun part hpart => by cases hpart) hway with hroot | ⟨q', hq', heq⟩
  · exact absurd hroot hid.not_onWay
  · obtain ⟨-, rfl⟩ := List.cons.inj (List.append_cancel_left heq)
    exact absurd (List.prefix_nil.mp hq') hne

/-! ## Copies of files below the site -/

/-- What a snapshot of a file below the site may come to. -/
inductive Copies (root : Path) (here site : Loc) (run : Text) (parts : List Text) (m : Manifest)
    (s : Standing Backups) (result : Except Failure BackupEntry) (s' : Standing Backups) : Prop
  | rests (hmemory : s'.memory = s.memory)
      (hlisted : ∀ entry, result = .ok entry → entry ∈ m.entries)
      (hchanges : Changes (IsOf root here run) (fun _ => False) s.world.tree s'.world.tree)
  | keeps {bytes : Bytes} {t : Tree}
      (hunlisted : ∀ e ∈ m.entries, e.file ≠ (entryAt root site run parts).file)
      (hbytes : s.world.tree.bytes? (site ++ parts) = some bytes)
      (hcopied : Changes (IsOf root here run) (· = place here root ++ run :: parts) s.world.tree t)
      (hmemory : s'.memory =
        { Backups.setRun run (Backups.listing m (entryAt root site run parts)) s.memory with
          replaced := Backups.noted root run here t s.memory.replaced })
      (hchanges : Changes (IsOf root here run)
        (fun loc => loc = place here root ++ run :: parts ∨
          loc = place here root ++ [run, Backups.manifestName run] ∨
          result = .ok (entryAt root site run parts) ∧ loc = place here (Backups.lastPath root))
        s.world.tree s'.world.tree)
      (hcopy : s'.world.tree.bytes? (place here root ++ run :: parts) = some bytes)
      (hpublished : ∀ entry, result = .ok entry → entry = entryAt root site run parts ∧
        Published root here (Backups.listing m (entryAt root site run parts)) s'.world.tree)

theorem snapshot_copies {storage : Storage Sim} (hs : storage.OverDisk) (hw : s.world.IsSound)
    (hroot : s.memory.root = root) (hhere : s.world.here = here)
    (hsite : place here s.memory.site = site) (hid : IsId root here run)
    (hlookup : s.memory.runs.lookup run = some m) (hrunId : m.runId = run)
    (hpath : path.IsProper) (hplace : place here path = site ++ parts)
    (hsource : IsSource root here site run parts) (hmirrors : Mirrors root here site run s.world.tree) :
    (play (Backups.snapshot storage run path) s).2.world.here = here ∧
      Copies root here site run parts m s (play (Backups.snapshot storage run path) s).1
        (play (Backups.snapshot storage run path) s).2 ∧
      ∀ id, IsId root here id → Mirrors root here site id s.world.tree →
        Mirrors root here site id (play (Backups.snapshot storage run path) s).2.world.tree := by
  subst hroot hhere hsite
  obtain ⟨hlocation, hentryAt⟩ := entryFor_eq s.memory.root hid.isName hplace
  have hparts : ∀ part ∈ parts, IsName part := fun part hpart =>
    hsource.names part (List.mem_append_right _ hpart)
  obtain ⟨hhere', hsnaps⟩ :=
    snapshot_snaps hs hw hid hlookup hrunId hpath hsource.ne_nil hparts hlocation
  have hway : ∀ loc, OnWay s.world.here (Backups.kept s.memory.root run parts).parent loc →
      IsOf s.memory.root s.world.here run loc := fun loc => isOf_of_onWay_parent hid.isName hparts
  refine ⟨hhere', ?_⟩
  cases hsnaps with
  | rests hmemory hlisted hchanges hvacant =>
      refine ⟨.rests hmemory hlisted (hchanges.mono (fun loc h => hway loc h.1) fun _ h => h),
        fun id hid' hmirrors' => ?_⟩
      by_cases hread : ∃ bytes, s.world.tree.read s.world.here path = .ok bytes
      · obtain ⟨bytes, hread⟩ := hread
        refine hmirrors'.onWay hw.tree hid' hid.isName hsource ?_
          (hchanges.mono (fun _ => And.left) fun _ h => h)
        rw [← hplace, (Tree.read_eq_ok.mp hread).2]
        exact Option.some_ne_none _
      · exact hmirrors'.changes hchanges fun _ _ h => absurd h.2 hread
  | @keeps entry bytes goal t hentry hunlisted hread hgoal hcopied hcopy hmemory hwritten hpublished =>
      obtain rfl := hentry.trans hentryAt
      have hfile := (Tree.read_eq_ok.mp hread).2
      rw [hplace] at hfile
      have hthere : s.world.tree.node? (place s.world.here s.memory.site ++ parts) ≠ none := by
        rw [hfile]
        exact Option.some_ne_none _
      -- the site has a file there, and so there is no directory for copies
      have hgoal' : goal = place s.world.here s.memory.root ++ run :: parts := by
        refine hgoal.resolve_right fun hinside => ?_
        obtain ⟨hdir, -⟩ := hmirrors parts hsource.ne_nil hinside.1
        rw [hfile] at hdir
        cases hdir
      subst hgoal'
      have hother : place s.world.here s.memory.root ++ run :: parts ≠
          place s.world.here s.memory.root ++ [run, Backups.manifestName run] := fun heq =>
        hsource.ne_manifest (List.cons.inj (List.append_cancel_left heq)).2
      have hnotLast : place s.world.here s.memory.root ++ run :: parts ≠
          place s.world.here (Backups.lastPath s.memory.root) :=
        Backups.ne_place_lastPath _ _ hid.ne_last
      refine ⟨.keeps hunlisted (Tree.bytes?_eq_some.mpr hfile) (hcopied.mono hway fun _ => id) hmemory
        ((hcopied.mono hway fun _ => Or.inl).trans (hwritten.mono hway fun _ => Or.inr)) ?_ hpublished,
        fun id hid' hmirrors' => ?_⟩
      · rw [hwritten.bytes? fun h => h.elim hother fun h => hnotLast h.2, hcopy]
      · have hmirrors'' := hmirrors'.onWay hw.tree hid' hid.isName hsource hthere hcopied
        refine hmirrors''.onWay hcopied.wellFormed hid' hid.isName hsource ?_ hwritten
        have hfile' := hcopied.files _ (by
          rw [Tree.bytes?_eq_some.mpr hfile]
          exact Option.some_ne_none _)
        obtain ⟨bytes', hbytes'⟩ := Option.ne_none_iff_exists'.mp hfile'
        rw [Tree.bytes?_eq_some.mp hbytes']
        exact Option.some_ne_none _

/-! ## Copies that can be restored -/

/-- An entry is of a file below the site that is still there. -/
structure CopyOf (root : Path) (here site : Loc) (id : Text) (e : BackupEntry) (parts : List Text)
    (t : Tree) : Prop where
  source : IsSource root here site id parts
  entry : e = entryAt root site id parts
  there : t.bytes? (site ++ parts) ≠ none

theorem CopyOf.changes (h : CopyOf root here site id e parts t) (hchanges : Changes P T t t') :
    CopyOf root here site id e parts t' :=
  ⟨h.source, h.entry, hchanges.files _ h.there⟩

/-- The backup root can be reached. -/
theorem read_kept (hroot : t.isDir here root = true) (ht : t.WellFormed) (hid : IsName id)
    (hparts : ∀ part ∈ parts, IsName part) {bytes : Bytes} :
    t.read here (Backups.kept root id parts) = .ok bytes ↔
      t.bytes? (place here root ++ id :: parts) = some bytes := by
  rw [Tree.read_eq_ok, Backups.place_kept here root hid hparts, Tree.bytes?_eq_some]
  refine ⟨And.right, fun hnode => ⟨?_, hnode⟩⟩
  obtain ⟨hlocate, -⟩ := Tree.isDir_iff.mp hroot
  have hnames : ∀ part ∈ id :: parts, IsName part := List.forall_mem_cons.mpr ⟨hid, hparts⟩
  have hbelow : t.follow (place here root) (id :: parts) = .ok (place here root ++ id :: parts) :=
    ht.follow (Path.parentName_not_mem hnames) (by rw [hnode]; exact Option.some_ne_none _)
  exact Tree.follow_append.mpr ⟨hlocate, hbelow⟩

/-- A disk on which what lies below one directory lies below another instead. -/
def moved (source target : Loc) (t : Tree) : Tree :=
  ⟨t.nodes.filterMap fun entry =>
    (source.isPrefixOf? entry.1).map fun rest => (target ++ rest, entry.2)⟩

theorem node?_moved (source : Loc) {target rest : Loc} (h : rest ≠ []) (t : Tree) :
    (moved source target t).node? (target ++ rest) = t.node? (source ++ rest) := by
  rw [Tree.node?, Tree.node?, if_neg (List.append_ne_nil_of_right_ne_nil _ h),
    if_neg (List.append_ne_nil_of_right_ne_nil _ h), moved]
  generalize t.nodes = nodes
  induction nodes with
  | nil => rfl
  | cons entry nodes ih =>
      obtain ⟨key, node⟩ := entry
      cases hstarts : source.isPrefixOf? key with
      | none =>
          have hne : source ++ rest ≠ key := fun heq => by
            rw [List.isPrefixOf?_eq_some_iff_append_eq.mpr heq] at hstarts
            cases hstarts
          rw [List.filterMap_cons_none (by rw [hstarts]; rfl), ih, List.lookup_cons,
            beq_eq_false_iff_ne.mpr hne]
      | some rest' =>
          obtain rfl := List.isPrefixOf?_eq_some_iff_append_eq.mp hstarts
          rw [List.filterMap_cons_some (by rw [hstarts]; rfl), List.lookup_cons, List.lookup_cons, ih]
          have hkeys : (target ++ rest == target ++ rest') = (source ++ rest == source ++ rest') := by
            rw [Bool.eq_iff_iff, beq_iff_eq, beq_iff_eq, List.append_cancel_left_eq,
              List.append_cancel_left_eq]
          rw [hkeys]

/-- The last manifest can be restored if all its entries have their copies, and then every file
gets what its copy holds. -/
theorem restore_copies (hroot : root.IsProper) (hid : IsName m.runId) (ht : w.tree.WellFormed)
    (hdir : w.tree.isDir w.here root = true) (hpublished : Published root w.here m w.tree)
    (hentries : ∀ e ∈ m.entries, ∃ parts, CopyOf root w.here site m.runId e parts w.tree ∧
      w.tree.bytes? (place w.here root ++ m.runId :: parts) ≠ none) :
    ∃ w', (Backups.restore root Storage.disk : Act Sim Nat).run.run w = (.ok m.entries.length, w') ∧
      ∀ e ∈ m.entries, ∃ bytes, w.tree.read w.here (Path.ofText e.backup) = .ok bytes ∧
        w'.tree.bytes? (place w.here (Path.ofText e.file)) = some bytes := by
  have hcopies : ∀ e ∈ m.entries, ∃ parts, Restorable root w.here site m.runId
      (moved (place w.here root ++ [m.runId]) site w.tree) w.tree e parts := by
    intro e he
    obtain ⟨parts, hcopy, hthere⟩ := hentries e he
    obtain ⟨bytes, hbytes⟩ := Option.ne_none_iff_exists'.mp hthere
    refine ⟨parts, hcopy.source, hcopy.entry, ⟨bytes, ?_, ?_⟩, hcopy.there⟩
    · rw [Tree.bytes?_eq_some, node?_moved _ hcopy.source.ne_nil, List.append_assoc]
      exact Tree.bytes?_eq_some.mp hbytes
    · exact (read_kept hdir ht hid fun part hpart =>
        hcopy.source.names part (List.mem_append_right _ hpart)).mpr hbytes
  obtain ⟨w', hrun, hcovered, -⟩ := restoreAll_restorable
    (w := w.after (.read (Backups.lastPath root))) hroot hid hcopies ht rfl rfl
  refine ⟨_, run_restore (hpublished.lastManifest rfl rfl) hrun, fun e he => ?_⟩
  obtain ⟨parts, hrestorable⟩ := hcopies e he
  obtain ⟨bytes, hbefore, hread⟩ := hrestorable.copy
  refine ⟨bytes, ?_, ?_⟩
  · rw [hrestorable.entry, hrestorable.source.ofText_backup hroot hid]
    exact hread
  · rw [← hbefore]
    have hplace : place w.here (Path.ofText e.file) = site ++ parts := by
      rw [hrestorable.entry]
      exact hrestorable.source.place_file
    have hcovers : Covers w.here m.entries (site ++ parts) := ⟨e, he, hplace⟩
    rw [hplace]
    exact hcovered _ hcovers

/-! ## Copies that have been lost -/

/-- A copy that goes back over a file below the site leaves the copies of runs alone. -/
theorem ne_goal {goal : Loc} (hsource : IsSource root here site id parts) {q : List Text}
    (hgoal : goal = site ++ parts ∨ ∃ name, goal = site ++ parts ++ [name]) :
    place here root ++ id :: q ≠ goal := by
  rintro rfl
  rcases hgoal with heq | ⟨name, heq⟩
  · exact hsource.outside ⟨_, heq⟩
  · have hstarts : place here root <+: site ++ parts ++ [name] := ⟨_, heq⟩
    rcases List.prefix_concat_iff.mp hstarts with hroot | hroot
    · rw [← hroot] at heq
      exact List.cons_ne_nil id q (List.append_cancel_left (heq.trans (List.append_nil _).symm))
    · exact hsource.outside hroot

theorem CopyOf.changes_copy (h : CopyOf root w.here site id e parts w.tree) (hroot : root.IsProper)
    (hid : IsName id) (ht : w.tree.WellFormed) :
    ∃ P T, Changes P T w.tree (w.tree.copy w.here (Path.ofText e.backup) (Path.ofText e.file)).1 ∧
      (∀ q, ¬ T (place w.here root ++ id :: q)) ∧
      ((w.tree.copy w.here (Path.ofText e.backup) (Path.ofText e.file)).2 = .ok () →
        w.tree.bytes? (place w.here root ++ id :: parts) ≠ none) := by
  have hbackup : Path.ofText e.backup = Backups.kept root id parts := by
    rw [h.entry, h.source.ofText_backup hroot hid]
  have hplace : place w.here (Path.ofText e.file) = site ++ parts := by
    rw [h.entry]
    exact h.source.place_file
  have hproper : (Path.ofText e.backup).IsProper := hbackup ▸ h.source.isProper_kept hroot hid
  rcases Tree.copy_changes ht w.here hproper (Path.ofText e.file) with
    ⟨error, hfails, hchanges⟩ | ⟨bytes, goal, hdone, hread, hgoal, -, hchanges, -⟩
  · exact ⟨_, _, hchanges, fun q h => h, fun hok => by cases hfails.symm.trans hok⟩
  · rw [hplace] at hgoal
    refine ⟨_, _, hchanges, fun q => ne_goal h.source (hgoal.imp_right And.right), fun _ => ?_⟩
    rw [hbackup] at hread
    have hnode := (Tree.read_eq_ok.mp hread).2
    rw [h.source.place_kept hid] at hnode
    rw [Tree.bytes?_eq_some.mpr hnode]
    exact Option.some_ne_none _

/-- If an entry has lost its copy then not all can be restored. -/
theorem restoreAll_lost (hroot : root.IsProper) (hid : IsName id) (ht : w.tree.WellFormed)
    (hhere : w.here = here)
    (hentries : ∀ e ∈ entries, ∃ parts, CopyOf root here site id e parts w.tree)
    (hlost : ∃ e ∈ entries, ∃ parts, CopyOf root here site id e parts w.tree ∧
      w.tree.bytes? (place here root ++ id :: parts) = none) :
    ((Backups.restoreAll (Storage.disk : Storage Sim) entries).run w).1.2 ≠ [] := by
  induction entries generalizing w with
  | nil =>
      obtain ⟨e, he, -⟩ := hlost
      cases he
  | cons e entries ih =>
      subst hhere
      obtain ⟨e', he', parts', hcopy', hnone⟩ := hlost
      cases hresult : (w.tree.copy w.here (Path.ofText e.backup) (Path.ofText e.file)).2 with
      | error error =>
          rw [Backups.run_restoreAll_error (Backups.run_copy_disk hresult)]
          exact List.cons_ne_nil _ _
      | ok _ =>
          rcases List.mem_cons.mp he' with rfl | he'
          · obtain ⟨P, T, -, -, hthere⟩ := hcopy'.changes_copy hroot hid ht
            exact absurd hnone (hthere hresult)
          · obtain ⟨parts, hcopy⟩ := hentries e List.mem_cons_self
            obtain ⟨P, T, hchanges, hkept, -⟩ := hcopy.changes_copy hroot hid ht
            rw [Backups.run_restoreAll_ok (Backups.run_copy_disk hresult)]
            refine ih hchanges.wellFormed rfl (fun e'' he'' => ?_)
              ⟨e', he', parts', hcopy'.changes hchanges, ?_⟩
            · obtain ⟨parts'', hcopy''⟩ := hentries e'' (List.mem_cons_of_mem _ he'')
              exact ⟨parts'', hcopy''.changes hchanges⟩
            · exact (hchanges.bytes? (hkept _)).trans hnone

/-- The last manifest cannot be restored if one of its entries has lost its copy. -/
theorem restore_lost (hroot : root.IsProper) (hid : IsName m.runId) (ht : w.tree.WellFormed)
    (hpublished : Published root w.here m w.tree)
    (hentries : ∀ e ∈ m.entries, ∃ parts, CopyOf root w.here site m.runId e parts w.tree)
    (hlost : ∃ e ∈ m.entries, ∃ parts, CopyOf root w.here site m.runId e parts w.tree ∧
      w.tree.bytes? (place w.here root ++ m.runId :: parts) = none) :
    ∃ error w', (Backups.restore root Storage.disk : Act Sim Nat).run.run w = (.error error, w') :=
  ⟨_, _, run_restore_partly (hpublished.lastManifest rfl rfl) rfl (restoreAll_lost
    (w := w.after (.read (Backups.lastPath root))) hroot hid ht rfl hentries hlost)⟩

end Shelves

end Stencil
