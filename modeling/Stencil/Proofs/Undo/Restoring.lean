import Stencil.Proofs.Backup.Frame
import Stencil.Proofs.Undo.Attempts

/-!
# Undoing a run

What is held can be undone: the last manifest is read back, every copy goes back where it came from, and
nothing else changes (`Holds.undoable`).
-/

namespace Stencil

open Stencil.Path (IsName)
open Stencil.Tree (place Puts)

section Restoring

variable {root : Path} {here loc site : Loc} {id : Text} {a : Attempt} {before t t' : Tree}
  {e : BackupEntry} {entries : List BackupEntry} {m : Manifest} {parts : List Text} {w : World}

/-! ## The last manifest -/

theorem lastManifest_of_found? (h : Backups.found? root w.here w.tree = some m) :
    (Backups.lastManifest root : Act Sim _).run.run w =
      (.ok (some m), w.after (.read (Backups.lastPath root))) := by
  obtain ⟨bytes, value, hread, hvalue, hmanifest⟩ := Backups.found?_eq_some.mp h
  rcases Backups.lastManifest_cases root w with
    ⟨hfile, -⟩ | ⟨e, hnot, -⟩ | ⟨bytes', value', m', hread', hvalue', hmanifest', hrun⟩
  · obtain ⟨hlocate, hnode⟩ := Tree.read_eq_ok.mp hread
    rw [Tree.isFile_iff.mpr ⟨hlocate, bytes, hnode⟩] at hfile
    cases hfile
  · exact absurd ⟨bytes, value, m, hread, hvalue, hmanifest⟩ hnot
  · obtain rfl := Except.ok.inj (hread.symm.trans hread')
    obtain rfl := Option.some.inj (hvalue.symm.trans hvalue')
    obtain rfl := Except.ok.inj (hmanifest.symm.trans hmanifest')
    exact hrun

/-- A manifest that has been written is found. -/
theorem Published.found? (h : Published root here m t) : Backups.found? root here t = some m := by
  obtain ⟨bytes, hwritten, hread⟩ := h
  obtain ⟨value, hvalue, hmanifest⟩ := Manifest.exists_of_writeBytes? hwritten
  exact Backups.found?_eq_some.mpr ⟨bytes, value, hread, hvalue, hmanifest⟩

theorem Published.lastManifest (h : Published root here m t) (htree : w.tree = t)
    (hhere : w.here = here) : (Backups.lastManifest root : Act Sim _).run.run w =
      (.ok (some m), w.after (.read (Backups.lastPath root))) := by
  subst htree hhere
  exact lastManifest_of_found? h.found?

/-- Where there is no file there is no manifest. -/
theorem lastManifest_of_not_isFile (h : w.tree.isFile w.here (Backups.lastPath root) = false) :
    (Backups.lastManifest root : Act Sim _).run.run w = (.ok none, w) := by
  have hask : (liftM (Disk.isFile (Backups.lastPath root) : Sim Bool) : Act Sim Bool).run.run w =
      (.ok (w.tree.isFile w.here (Backups.lastPath root)), w) := rfl
  rw [Backups.lastManifest, run_bind, hask, h]
  rfl

theorem lastManifest_of_bytes? (h : w.tree.bytes? (place w.here (Backups.lastPath root)) = none) :
    (Backups.lastManifest root : Act Sim _).run.run w = (.ok none, w) := by
  refine lastManifest_of_not_isFile (Bool.eq_false_iff.mpr fun hfile => ?_)
  obtain ⟨-, bytes, hnode⟩ := Tree.isFile_iff.mp hfile
  cases (Tree.bytes?_eq_some.mpr hnode).symm.trans h

/-! ## One entry -/

theorem place_absolute (here : Loc) (hparts : ∀ part ∈ parts, IsName part) :
    place here ⟨.slash, parts⟩ = parts := by
  have hplace := Path.collapse_of_not_mem (Path.parentName_not_mem hparts) []
  rw [List.nil_append] at hplace
  exact hplace

theorem IsSource.ofText_file (h : IsSource root here site id parts) :
    Path.ofText (entryAt root site id parts).file = ⟨.slash, site ++ parts⟩ :=
  Path.ofText_text (p := ⟨.slash, site ++ parts⟩) fun part hpart => (h.names part hpart).isPart

theorem IsSource.place_file (h : IsSource root here site id parts) :
    place here (Path.ofText (entryAt root site id parts).file) = site ++ parts := by
  rw [h.ofText_file]
  exact place_absolute here h.names

theorem IsSource.isProper_kept (h : IsSource root here site id parts) (hroot : root.IsProper)
    (hid : IsName id) : (Backups.kept root id parts).IsProper := by
  intro part hpart
  rcases List.mem_append.mp hpart with hpart | hpart
  · exact hroot part hpart
  · rcases List.mem_cons.mp hpart with rfl | hpart
    · exact hid.isPart
    · exact (h.names part (List.mem_append_right _ hpart)).isPart

theorem IsSource.ofText_backup (h : IsSource root here site id parts) (hroot : root.IsProper)
    (hid : IsName id) :
    Path.ofText (entryAt root site id parts).backup = Backups.kept root id parts :=
  Path.ofText_text (p := Backups.kept root id parts) (h.isProper_kept hroot hid)

/-- The entry has a copy of what the file was, and the file is still there. -/
structure Restorable (root : Path) (here site : Loc) (id : Text) (before t : Tree)
    (e : BackupEntry) (parts : List Text) : Prop where
  source : IsSource root here site id parts
  entry : e = entryAt root site id parts
  copy : ∃ bytes, before.bytes? (site ++ parts) = some bytes ∧
    t.read here (Backups.kept root id parts) = .ok bytes
  there : t.bytes? (site ++ parts) ≠ none

theorem KeptAs.restorable (h : KeptAs root here site a t e parts) :
    Restorable root here site a.id a.before t e parts := by
  obtain ⟨bytes, now, hbefore, hread, hnow, -⟩ := h.bytes
  refine ⟨h.source, h.entry, ⟨bytes, hbefore, hread⟩, ?_⟩
  rw [hnow]
  exact Option.some_ne_none _

/-- The copy goes back over the file. -/
theorem Restorable.copy_back (h : Restorable root here site id before t e parts)
    (ht : t.WellFormed) (hroot : root.IsProper) (hid : IsName id) :
    ∃ bytes t', before.bytes? (site ++ parts) = some bytes ∧
      t.copy here (Path.ofText e.backup) (Path.ofText e.file) = (t', .ok ()) ∧
      Puts here ⟨.slash, site ++ parts⟩ bytes t t' := by
  obtain ⟨bytes, hbefore, hread⟩ := h.copy
  obtain ⟨now, hnow⟩ := Option.ne_none_iff_exists'.mp h.there
  have hplace := place_absolute here h.source.names
  have hnode := Tree.bytes?_eq_some.mp hnow
  rw [← hplace] at hnode
  have hlocate : t.locate here ⟨.slash, site ++ parts⟩ = .ok (place here ⟨.slash, site ++ parts⟩) := by
    rw [hplace] at hnode ⊢
    have hfollow : t.follow [] (site ++ parts) = .ok ([] ++ (site ++ parts)) :=
      ht.follow (Path.parentName_not_mem h.source.names)
        (by rw [List.nil_append, hnode]; exact Option.some_ne_none _)
    exact hfollow
  have hfree : t.node? (place here ⟨.slash, site ++ parts⟩) ≠ some .dir := by
    rw [hnode]
    exact fun heq => by cases heq
  have hnamed : (Path.mk .slash (site ++ parts)).parts ≠ [] :=
    List.append_ne_nil_of_right_ne_nil _ h.source.ne_nil
  obtain ⟨name, -, -, hparent⟩ :=
    Tree.exists_name ht hlocate hfree fun hparts => absurd hparts hnamed
  have hplaces : place here ⟨.slash, site ++ parts⟩ ≠ place here (Backups.kept root id parts) := by
    rw [hplace, h.source.place_kept hid]
    exact fun heq => h.source.outside ⟨_, heq.symm⟩
  refine ⟨bytes, _, hbefore, ?_, hlocate, hfree, hnamed, rfl⟩
  rw [h.entry, h.source.ofText_backup hroot hid, h.source.ofText_file, Tree.copy,
    Tree.look_eq_ok.mpr ⟨rfl, Tree.read_eq_ok.mp hread⟩]
  dsimp only
  rw [Tree.makeDirs_of_isDir hparent]
  dsimp only
  have hnotDir : t.isDir here ⟨.slash, site ++ parts⟩ = false :=
    Bool.eq_false_iff.mpr fun hdir => hfree (Tree.isDir_iff.mp hdir).2
  rw [hnotDir, if_neg Bool.false_ne_true, hlocate]
  dsimp only
  rw [if_neg hplaces, hnode]

/-! ## All entries -/

/-- The entries cover a file. -/
def Covers (here : Loc) (entries : List BackupEntry) (loc : Loc) : Prop :=
  ∃ e ∈ entries, place here (Path.ofText e.file) = loc

/-- An entry can still be restored after another file has been. -/
theorem Restorable.puts {bytes : Bytes} {parts' : List Text}
    (h : Restorable root here site id before t e parts) (ht : t.WellFormed) (hid : IsName id)
    (hsource : IsSource root here site id parts')
    (hputs : Puts here ⟨.slash, site ++ parts'⟩ bytes t t') :
    Restorable root here site id before t' e parts := by
  have hstep : Step (fun _ => False) (place here ⟨.slash, site ++ parts'⟩) t t' :=
    (Step.of_grows ht (Tree.Grows.refl t) _).puts hputs
  have hplace := place_absolute here hsource.names
  refine ⟨h.source, h.entry, ?_, ?_⟩
  · obtain ⟨bytes', hbefore, hread⟩ := h.copy
    refine ⟨bytes', hbefore, hstep.read (fun heq => ?_) hread⟩
    rw [hplace, h.source.place_kept hid] at heq
    exact hsource.outside ⟨_, heq⟩
  · rw [hputs.bytes? ht]
    split
    · exact Option.some_ne_none _
    · exact h.there

/-- Every copy goes back, and nothing else changes. -/
theorem restoreAll_restorable (hroot : root.IsProper) (hid : IsName id)
    (hentries : ∀ e ∈ entries, ∃ parts, Restorable root here site id before t e parts)
    (ht : t.WellFormed) (htree : w.tree = t) (hhere : w.here = here) :
    ∃ w', (Backups.restoreAll (Storage.disk : Storage Sim) entries).run w =
        ((entries.length, []), w') ∧
      (∀ loc, Covers here entries loc → w'.tree.bytes? loc = before.bytes? loc) ∧
      ∀ loc, ¬ Covers here entries loc → w'.tree.bytes? loc = t.bytes? loc := by
  induction entries generalizing t w with
  | nil =>
      refine ⟨w, rfl, fun loc hcovers => ?_, fun loc _ => by rw [htree]⟩
      obtain ⟨e, hmem, -⟩ := hcovers
      cases hmem
  | cons e entries ih =>
      obtain ⟨parts, hrestorable⟩ := hentries e List.mem_cons_self
      obtain ⟨bytes, t', hbefore, hcopy, hputs⟩ := hrestorable.copy_back ht hroot hid
      subst htree hhere
      obtain ⟨w', hrun, hcovered, hspared⟩ := ih
        (w := w.after (.copy (Path.ofText e.backup) (Path.ofText e.file))) (t := t')
        (fun e he => by
          obtain ⟨parts', h'⟩ := hentries e (List.mem_cons_of_mem _ he)
          exact ⟨parts', h'.puts ht hid hrestorable.source hputs⟩)
        (hputs.wellFormed ht) (congrArg Prod.fst hcopy) rfl
      have hput : ∀ loc, t'.bytes? loc = if loc = site ++ parts then some bytes else w.tree.bytes? loc := by
        intro loc
        rw [hputs.bytes? ht, place_absolute w.here hrestorable.source.names]
      have hplace : place w.here (Path.ofText e.file) = site ++ parts := by
        rw [hrestorable.entry]
        exact hrestorable.source.place_file
      refine ⟨w', ?_, fun loc hcovers => ?_, fun loc hnot => ?_⟩
      · rw [Backups.run_restoreAll_ok (Backups.run_copy_disk (congrArg Prod.snd hcopy)), hrun]
        rfl
      · by_cases hrest : Covers w.here entries loc
        · exact hcovered loc hrest
        · obtain ⟨e', hmem, rfl⟩ := hcovers
          rcases List.mem_cons.mp hmem with rfl | hmem
          · rw [hspared _ hrest, hput, hplace, if_pos rfl, hbefore]
          · exact absurd ⟨e', hmem, rfl⟩ hrest
      · rw [hspared loc fun hrest => ?_, hput, if_neg]
        · rintro rfl
          exact hnot ⟨e, List.mem_cons_self, hplace⟩
        · obtain ⟨e', hmem, heq⟩ := hrest
          exact hnot ⟨e', List.mem_cons_of_mem _ hmem, heq⟩

/-! ## Whole runs -/

/-- What it means that a run can be undone on a disk. -/
structure Undoable (root : Path) (here : Loc) (a : Attempt) (t : Tree) (m : Manifest) : Prop where
  /-- Whoever looks finds the manifest of the run. -/
  last : ∀ w : World, w.tree = t → w.here = here → ∃ w',
    (Backups.lastManifest root : Act Sim _).run.run w = (.ok (some m), w')
  runId : m.runId = a.id
  /-- Every entry has a copy of what the file was just before the run. -/
  copies : ∀ e ∈ m.entries, ∃ bytes, a.before.bytes? (place here (Path.ofText e.file)) = some bytes ∧
    t.read here (Path.ofText e.backup) = .ok bytes
  listed : ∀ loc, a.Wrote root here loc → Covers here m.entries loc
  /-- Undoing the run gives every file that it has written its bytes from before, and changes no other
  file outside the backup root. -/
  restores : ∀ w : World, w.tree = t → w.here = here → ∃ w',
    (Backups.restore root Storage.disk : Act Sim Nat).run.run w = (.ok m.entries.length, w') ∧
    (∀ loc, a.Wrote root here loc → w'.tree.bytes? loc = a.before.bytes? loc) ∧
    ∀ loc, ¬ place here root <+: loc → ¬ a.Wrote root here loc →
      w'.tree.bytes? loc = t.bytes? loc

section Answers

variable {storage : Storage Sim} {w₁ w₂ : World} {count : Nat} {failed : List (Text × Text)}

theorem run_lift_restoreAll
    (hall : (Backups.restoreAll storage entries).run w₁ = ((count, failed), w₂)) :
    (liftM (Backups.restoreAll storage entries) : Act Sim (Nat × List (Text × Text))).run.run w₁ =
      (.ok (count, failed), w₂) := by
  show (Except.ok <$> Backups.restoreAll storage entries).run w₁ = _
  rw [StateT.run_map, hall]
  rfl

theorem run_restore_none
    (hlast : (Backups.lastManifest root : Act Sim _).run.run w = (.ok none, w₁)) :
    (Backups.restore root storage : Act Sim Nat).run.run w =
      (.error (.restore (.noManifest (Backups.lastPath root))), w₁) := by
  rw [Backups.restore, run_bind, hlast]
  rfl

theorem run_restore
    (hlast : (Backups.lastManifest root : Act Sim _).run.run w = (.ok (some m), w₁))
    (hall : (Backups.restoreAll storage m.entries).run w₁ = ((count, []), w₂)) :
    (Backups.restore root storage : Act Sim Nat).run.run w =
      (.ok count, w₂.after (.log .info (Text.concat ["Restored ", .ofNat count, " file(s) from run ",
        m.runId]))) := by
  rw [Backups.restore, run_bind, hlast]
  dsimp only
  rw [run_bind, run_lift_restoreAll hall]
  rfl

theorem run_restore_partly
    (hlast : (Backups.lastManifest root : Act Sim _).run.run w = (.ok (some m), w₁))
    (hall : (Backups.restoreAll storage m.entries).run w₁ = ((count, failed), w₂))
    (hfailed : failed ≠ []) :
    (Backups.restore root storage : Act Sim Nat).run.run w =
      (.error (.restore (.partly count failed)), w₂) := by
  rw [Backups.restore, run_bind, hlast]
  dsimp only
  rw [run_bind, run_lift_restoreAll hall]
  dsimp only
  rw [List.isEmpty_eq_false_iff.mpr hfailed, if_neg Bool.false_ne_true]
  rfl

end Answers

/-- A run whose manifest holds can be undone. -/
theorem Holds.undoable (h : Holds root here site a m t) (ht : t.WellFormed)
    (hroot : root.IsProper) (hid : IsName a.id) : Undoable root here a t m := by
  have hlisted : ∀ loc, a.Wrote root here loc → Covers here m.entries loc := by
    intro loc hwrote
    obtain ⟨hnames, e, he, hfile⟩ := h.listed loc hwrote
    refine ⟨e, he, ?_⟩
    rw [hfile, Path.ofText_text (p := ⟨.slash, loc⟩) fun part hpart => (hnames part hpart).isPart]
    exact place_absolute here hnames
  refine ⟨fun w htree hhere => ⟨_, h.published.lastManifest htree hhere⟩, h.runId, fun e he => ?_,
    hlisted, fun w htree hhere => ?_⟩
  · obtain ⟨parts, hkept⟩ := h.keeps e he
    obtain ⟨bytes, now, hbefore, hread, -⟩ := hkept.bytes
    rw [hkept.entry, hkept.source.place_file, hkept.source.ofText_backup hroot hid]
    exact ⟨bytes, hbefore, hread⟩
  · have hlast := h.published.lastManifest htree hhere
    obtain ⟨w', hrun, hcovered, hspared⟩ := restoreAll_restorable
      (w := w.after (.read (Backups.lastPath root))) hroot hid
      (fun e he => (h.keeps e he).imp fun parts hkept => hkept.restorable) ht htree hhere
    refine ⟨_, run_restore hlast hrun, fun loc hwrote => hcovered loc (hlisted loc hwrote),
      fun loc hout hnot => ?_⟩
    by_cases hcovers : Covers here m.entries loc
    · -- the run has copied the file without writing it
      refine (hcovered loc hcovers).trans ?_
      obtain ⟨e, he, rfl⟩ := hcovers
      obtain ⟨parts, hkept⟩ := h.keeps e he
      obtain ⟨bytes, now, hbefore, -, hnow, hsame⟩ := hkept.bytes
      rw [hkept.entry, hkept.source.place_file] at hnot ⊢
      rw [hbefore, hnow, hsame hnot]
    · exact hspared loc hcovers

end Restoring

end Stencil
