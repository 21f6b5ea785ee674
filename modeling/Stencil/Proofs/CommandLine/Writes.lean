import Stencil.Proofs.CommandLine.Steps
import Stencil.Proofs.Disk.Detours

/-!
# What commands write

Outside the backup root an update writes pages of the template that it has found, and only the one that
is named if one is; making a page writes its file, which was not there before, unless that is forced or
the way to it makes a detour (`Tree.IsDetour`); undoing writes the files that the last manifest lists or,
where one of them has become a directory, a file in it; and nothing else is written (`bounded_run`).
-/

namespace Stencil

open Stencil.Path (IsName)
open Stencil.Tree (place Changes)

/-! ## Copies made back -/

namespace Backups

theorem run_restoreAll_cons_world (entry : BackupEntry) (entries : List BackupEntry) (w : World) :
    ∃ w₁, Idle (w.after (.copy (Path.ofText entry.backup) (Path.ofText entry.file))) w₁ ∧
      ((restoreAll .disk (entry :: entries) : Sim _).run w).2 =
        ((restoreAll .disk entries : Sim _).run w₁).2 := by
  cases hcopy : (w.tree.copy w.here (Path.ofText entry.backup) (Path.ofText entry.file)).2 with
  | ok _ =>
      rw [run_restoreAll_ok (run_copy_disk hcopy)]
      exact ⟨_, Idle.refl _, rfl⟩
  | error e =>
      rw [run_restoreAll_error (run_copy_disk hcopy)]
      exact ⟨_, IsIdle.log _ _ _, rfl⟩

/-- Making copies back changes no file but those they land on. -/
theorem restoreAll_changes (entries : List BackupEntry) {w : World} (ht : w.tree.WellFormed) :
    Changes (fun _ => True) (fun loc => ∃ entry ∈ entries, Tree.Lands w.here
        ((restoreAll .disk entries : Sim _).run w).2.tree (Path.ofText entry.file) loc)
      w.tree ((restoreAll .disk entries : Sim _).run w).2.tree := by
  induction entries generalizing w with
  | nil => exact .refl ht
  | cons entry entries ih =>
      obtain ⟨w₁, hidle, hrun⟩ := run_restoreAll_cons_world entry entries w
      have hcopied := Tree.copy_lands ht w.here (Path.isProper_ofText entry.backup)
        (Path.ofText entry.file)
      have htree : w₁.tree =
        (w.tree.copy w.here (Path.ofText entry.backup) (Path.ofText entry.file)).1 := hidle.tree
      have hhere : w₁.here = w.here := hidle.here
      rw [← htree] at hcopied
      have hrest := ih (w := w₁) hcopied.wellFormed
      rw [hhere, ← hrun] at hrest
      refine (hcopied.mono (fun _ => id) fun loc hloc => ?_).trans (hrest.mono (fun _ => id) ?_)
      · exact ⟨entry, List.mem_cons_self,
          hloc.imp_right fun ⟨hdir, hname⟩ => ⟨hrest.dirs _ hdir, hname⟩⟩
      · exact fun loc ⟨other, hother, hlands⟩ => ⟨other, List.mem_cons_of_mem _ hother, hlands⟩

end Backups

namespace Commands

variable {settings : Settings} {command : Command} {w w' w₁ : World} {loc : Loc}
  {result : Except Failure ExitCode}

/-! ## What a command may write -/

/-- An update may write a page that is found and, if a page is named, no other one. -/
def MayUpdate (settings : Settings) (request : UpdateRequest) (w : World) (loc : Loc) : Prop :=
  (∃ page ∈ found settings request.template w, loc = place w.here page) ∧
    ∀ only, request.only? = some only → loc = place w.here (settings.resolve only)

/-- A page may be made where it is wanted, and over a file only if that is forced or cannot be told. -/
def MayCreate (settings : Settings) (shown : Text) (force : Bool) (w : World) (loc : Loc) : Prop :=
  loc = place w.here (settings.resolve shown) ∧
    (force = true ∨ w.tree.bytes? loc = none ∨ w.tree.IsDetour w.here (settings.resolve shown))

/-- A copy may be made back over a file that the last manifest lists. -/
def MayRestore (settings : Settings) (w : World) (after : Tree) (loc : Loc) : Prop :=
  ∃ manifest, ((Backups.lastManifest settings.backupRoot : Act Sim _).run.run w).1 =
    .ok (some manifest) ∧
      ∃ entry ∈ manifest.entries, Tree.Lands w.here after (Path.ofText entry.file) loc

/-- The files outside the backup root that a command may write, given the disk it leaves. -/
def MayWrite (settings : Settings) (w : World) (after : Tree) (loc : Loc) : Command → Prop
  | .updateAll request | .sync request => MayUpdate settings request w loc
  | .findInstances _ | .showRegions _ => False
  | .createPage _ output? force => ∃ shown, output? = some shown ∧
    MayCreate settings shown force w loc
  | .restoreBackup _ => MayRestore settings w after loc

/-- The template that a command writes pages of. -/
def template? : Command → Option Text
  | .updateAll request | .sync request => some request.template
  | .createPage template _ _ => some template
  | _ => none

/-- What a command does to the disk at most, and when it does nothing. -/
structure Bounded (settings : Settings) (command : Command) (w w' : World)
    (result : Except Failure ExitCode) : Prop where
  /-- Outside the backup root no file changes but those that the command may write. -/
  changed : ∀ loc, ¬ place w.here settings.backupRoot <+: loc →
    w'.tree.bytes? loc ≠ w.tree.bytes? loc → MayWrite settings w w'.tree loc command
  skipped : result = .ok .safetySkip → w'.tree = w.tree
  declined : ∀ yes, command = .restoreBackup yes → result = .ok .cancelled → w'.tree = w.tree
  unloaded : ∀ template e, template? command = some template →
    ((Run.loadTemplate .disk (settings.resolve template) : Act Sim _).run.run w).1 = .error e →
      w'.tree = w.tree

theorem Bounded.of_tree_eq (h : w'.tree = w.tree) : Bounded settings command w w' result where
  changed loc _ hne := absurd (by rw [h]) hne
  skipped _ := h
  declined _ _ _ := h
  unloaded _ _ _ _ := h

theorem Bounded.of_idle (h : Idle w w') : Bounded settings command w w' result := .of_tree_eq h.tree

/-! ## One command -/

/-- Every file has a name that leads down to it. -/
def NamesLead (w : World) : Prop := ∀ entry ∈ w.tree.files, ∀ part ∈ entry.1, IsName part

/-- A site as commands meet it. -/
structure IsSite (settings : Settings) (w : World) : Prop where
  sound : w.IsSound
  names : NamesLead w
  root : settings.siteRoot.IsProper
  last : Run.LastWritten settings.backupRoot w

theorem IsSite.of_idle (h : IsSite settings w) (hidle : Idle w w') : IsSite settings w' where
  sound := hidle.isSound h.sound
  names := by rw [NamesLead, hidle.tree]; exact h.names
  root := h.root
  last := by rw [Run.LastWritten, hidle.tree, hidle.here]; exact h.last

theorem IsUpdated.isProper {request : UpdateRequest} {path : Path} (hsite : IsSite settings w)
    (h : IsUpdated settings request w path) : path.IsProper := by
  obtain ⟨-, hpath⟩ := h
  cases honly : request.only? with
  | some only =>
      rw [honly] at hpath
      rw [hpath]
      exact Path.isProper_child hsite.root only
  | none =>
      rw [honly] at hpath
      obtain ⟨hcandidate, -⟩ := Discovery.mem_instances_iff.mp hpath
      obtain ⟨-, file, rfl, ⟨bytes, hfile⟩, -⟩ := Discovery.mem_candidates_iff.mp hcandidate
      refine fun part hpart => (List.mem_append.mp hpart).elim (hsite.root part) fun hpart => ?_
      exact (hsite.names _ hfile part (List.mem_append_right _ hpart)).isPart

theorem IsUpdated.mayUpdate {request : UpdateRequest} {path : Path}
    (h : IsUpdated settings request w path) : MayUpdate settings request w (place w.here path) := by
  obtain ⟨hfound, hpath⟩ := h
  refine ⟨hfound, fun only honly => ?_⟩
  rw [honly] at hpath
  rw [hpath]

/-- Whether a template can be loaded depends on the disk alone. -/
theorem loadTemplate_of_idle (h : Idle w w') (template : Path) :
    ((Run.loadTemplate .disk template : Act Sim _).run.run w').1 =
      ((Run.loadTemplate .disk template : Act Sim _).run.run w).1 := by
  have hread : ∀ w : World, (Storage.disk.readText template : Sim _).run w =
      ((w.tree.read w.here template).map Text.decode, w.after (.read template)) := fun w => rfl
  rw [Run.loadTemplate, run_bind, run_bind, run_os, run_os, hread, hread, h.tree, h.here]
  cases w.tree.read w.here template with
  | error e => rfl
  | ok bytes =>
      dsimp only [Except.map, Except.mapError]
      cases Template.build (Text.decode bytes) template.text <;> rfl

theorem bounded_update (name : CommandName) (request : UpdateRequest)
    (hcommand : command = .updateAll request ∨ command = .sync request) (hsite : IsSite settings w) :
    Bounded settings command w ((update name settings request : Act Sim _).run.run w).2
      ((update name settings request : Act Sim _).run.run w).1 := by
  rcases update_cases name settings request w with hidle | ⟨w₁, paths, single, hidle, hupdated, hrun⟩
  · exact .of_idle hidle
  · rw [hrun]
    obtain ⟨hprinted, hnoSkip⟩ :=
      runOver_cases name settings (settings.resolve request.template) paths single w₁
    have hsite₁ := hsite.of_idle hidle
    rcases Run.run_spares ⟨settings, Terminal.frontEnd, .disk⟩ FrontEnd.isQuiet_terminal
      Storage.overDisk_disk (settings.resolve request.template) (.initial settings) hsite₁.sound
      (fun path hpath => (hupdated path hpath).isProper hsite) hsite₁.last with
      ⟨e, -, -, htree⟩ | ⟨⟨document, hload⟩, hspares⟩
    · exact .of_tree_eq (hprinted.tree.trans (htree.trans hidle.tree))
    · rw [loadTemplate_of_idle hidle] at hload
      rw [hidle.tree, hidle.here, ← hprinted.tree] at hspares
      refine ⟨fun loc hloc hne => ?_, fun heq => absurd heq hnoSkip, fun yes heq => ?_,
        fun template e htemplate hfails => ?_⟩
      · have hmay : MayUpdate settings request w loc := by
          by_contra hnot
          refine hne (hspares loc ?_)
          rintro (hbackup | ⟨path, hpath, rfl⟩)
          · exact hloc hbackup
          · exact hnot (hupdated path hpath).mayUpdate
        rcases hcommand with rfl | rfl <;> exact hmay
      · rcases hcommand with rfl | rfl <;> cases heq
      · have hsame : template = request.template := by
          rcases hcommand with rfl | rfl <;> exact (Option.some.inj htemplate).symm
        rw [hsame] at hfails
        cases hfails.symm.trans hload

theorem bounded_createPage (template : Text) (output? : Option Text) (force : Bool)
    (hsite : IsSite settings w) : Bounded settings (.createPage template output? force) w
      ((createPage settings template output? force : Act Sim _).run.run w).2
      ((createPage settings template output? force : Act Sim _).run.run w).1 := by
  rcases createPage_cases settings template output? force w with
    hidle | ⟨shown, w₁, bytes, rfl, hfree, ⟨document, hload⟩, hidle, hprinted, hnoSkip⟩
  · exact .of_idle hidle
  · have htree := hprinted.tree
    rw [World.after] at htree
    dsimp only [Event.replay] at htree
    rw [hidle.tree, hidle.here] at htree
    refine ⟨fun loc _ hne => ⟨shown, rfl, ?_⟩, fun heq => absurd heq hnoSkip, fun yes heq => ?_,
      fun other e htemplate hfails => ?_⟩
    · rw [htree] at hne
      obtain ⟨-, ⟨e, -, hsame⟩ | ⟨hdone, hbytes⟩⟩ :=
        Tree.replace_bytes? hsite.sound.tree w.here w₁.tag (settings.resolve shown) bytes
      · exact absurd (hsame loc) hne
      · have hloc : loc = place w.here (settings.resolve shown) := by
          by_contra hother
          exact hne ((hbytes loc).trans (if_neg hother))
        refine ⟨hloc, hfree.imp_right fun hthere => ?_⟩
        by_cases hnone : w.tree.bytes? loc = none
        · exact Or.inl hnone
        · refine Or.inr ((Tree.isThere_or_isDetour hsite.sound.tree ?_ hdone).resolve_left ?_)
          · intro hnode
            rw [hloc, Tree.bytes?, hnode] at hnone
            exact hnone rfl
          · rw [hthere]
            exact Bool.false_ne_true
    · cases heq
    · obtain rfl := Option.some.inj htemplate
      cases hfails.symm.trans hload

theorem bounded_restoreBackup (yes : Bool) (hsite : IsSite settings w) :
    Bounded settings (.restoreBackup yes) w ((restoreBackup settings yes : Act Sim _).run.run w).2
      ((restoreBackup settings yes : Act Sim _).run.run w).1 := by
  rcases restoreBackup_cases settings yes w with
    hidle | ⟨⟨manifest, w₁, hlast, hidle, hprinted⟩, hnoSkip, hdone⟩
  · exact .of_idle hidle
  · have hwell : w₁.tree.WellFormed := hidle.tree ▸ hsite.sound.tree
    have hspares := (Backups.restoreAll_changes manifest.entries hwell).spares
    rw [← hprinted.tree, hidle.tree, hidle.here] at hspares
    refine ⟨fun loc _ hne => ⟨manifest, hlast, ?_⟩, fun heq => absurd heq hnoSkip,
      fun _ _ heq => absurd heq hdone, fun template e htemplate => by cases htemplate⟩
    by_contra hnot
    exact hne (hspares loc hnot)

theorem bounded_run (command : Command) (hsite : IsSite settings w) :
    Bounded settings command w ((run settings command : Act Sim _).run.run w).2
      ((run settings command : Act Sim _).run.run w).1 := by
  cases command with
  | updateAll request => exact bounded_update _ request (Or.inl rfl) hsite
  | sync request => exact bounded_update _ request (Or.inr rfl) hsite
  | findInstances template => exact .of_idle (isIdle_findInstances settings template w)
  | showRegions file => exact .of_idle (isIdle_showRegions settings file w)
  | createPage template output? force => exact bounded_createPage template output? force hsite
  | restoreBackup yes => exact bounded_restoreBackup yes hsite

end Commands

end Stencil
