import Stencil.CommandLine.Commands
import Stencil.Proofs.Discovery.Folders
import Stencil.Proofs.Run.Reach

/-!
# Commands step by step

All that commands read, print and ask leaves the disk alone (`IsIdle`). What is left is said once for
each command that writes: it comes to nothing, or to a run over pages (`update_cases`), to one file
written (`createPage_cases`) or to copies made back (`restoreBackup_cases`), and then it tells neither
that anything was left out for safety nor, restoring, that it was cancelled.
-/

namespace Stencil

open Stencil.Tree (place)

variable {α β : Type} {w w' : World}

/-! ## Steps that leave the disk alone -/

namespace IsIdle

theorem log (level : Level) (text : Text) : IsIdle (Log.log level text : Sim Unit) := fun w => by
  show Idle w (w.after (.log level text))
  exact Idle.after w rfl

theorem read (path : Path) : IsIdle (Disk.read path : Sim _) := fun w => by
  show Idle w (w.after (.read path))
  exact Idle.after w rfl

theorem isFile (path : Path) : IsIdle (Disk.isFile path : Sim Bool) := Idle.refl

theorem isDir (path : Path) : IsIdle (Disk.isDir path : Sim Bool) := Idle.refl

theorem isThere (path : Path) : IsIdle (Disk.isThere path : Sim Bool) := Idle.refl

theorem resolve (path : Path) : IsIdle (Disk.resolve path : Sim Path) := Idle.refl

theorem mapM {act : α → Sim β} (h : ∀ a, IsIdle (act a)) (as : List α) : IsIdle (as.mapM act) := by
  induction as with
  | nil => exact .pure _
  | cons a as ih =>
      rw [List.mapM_cons]
      exact (h a).bind fun _ => ih.bind fun _ => .pure _

/-- A step of the host within a computation that may fail. -/
theorem lift {act : Sim α} (h : IsIdle act) : IsIdle (liftM act : Act Sim α).run :=
  h.bind fun _ => .pure _

theorem bindAct {act : Act Sim α} (h : IsIdle act.run) {next : α → Act Sim β}
    (hnext : ∀ a, IsIdle (next a).run) : IsIdle (act >>= next).run := by
  rw [ExceptT.run_bind]
  refine h.bind fun result => ?_
  cases result with
  | error e => exact .pure _
  | ok a => exact hnext a

theorem os {act : Sim (Except OsError α)} (h : IsIdle act) : IsIdle (Act.os act).run := by
  refine h.bind fun result => ?_
  cases result <;> exact .pure _

end IsIdle

namespace Discovery

theorem isIdle_candidates (s : Settings) : IsIdle (candidates s : Sim (List Path)) := Idle.refl

theorem isIdle_keepBound (name : Text) (paths : List Path) :
    IsIdle (keepBound .disk name paths : Sim (List Path)) := by
  induction paths with
  | nil => exact .pure _
  | cons path paths ih =>
      refine IsIdle.bind ((IsIdle.read path).bind fun _ => .pure _) fun read => ?_
      cases read with
      | ok text => exact ih.bind fun _ => .pure _
      | error e => exact (IsIdle.log _ _).bind fun _ => ih

theorem isIdle_instances (s : Settings) (template : Path) :
    IsIdle (instances s .disk template : Sim (List Path)) :=
  (isIdle_candidates s).bind fun _ => (isIdle_keepBound _ _).bind fun _ =>
    (IsIdle.log _ _).bind fun _ => .pure _

/-- Which pages are found depends on the disk alone. -/
theorem mem_instances_of_idle {s : Settings} {template path : Path} (h : Idle w w') :
    path ∈ ((instances s .disk template : Sim (List Path)).run w').1 ↔
      path ∈ ((instances s .disk template : Sim (List Path)).run w).1 := by
  rw [mem_instances_iff, mem_instances_iff, mem_candidates_iff, mem_candidates_iff, h.tree, h.here]

end Discovery

namespace Backups

theorem isIdle_lastManifest (root : Path) :
    IsIdle (lastManifest root : Act Sim (Option Manifest)).run := by
  refine IsIdle.bindAct (IsIdle.isFile _).lift fun isFile => ?_
  cases isFile with
  | false => exact .pure _
  | true =>
      refine IsIdle.bindAct (IsIdle.read _).os fun bytes => ?_
      split
      · exact .pure _
      · split <;> exact .pure _

/-- The last manifest depends on the disk alone. -/
theorem lastManifest_of_idle {root : Path} {manifest : Manifest} (h : Idle w w')
    (hlast : ((lastManifest root : Act Sim _).run.run w').1 = .ok (some manifest)) :
    ((lastManifest root : Act Sim _).run.run w).1 = .ok (some manifest) := by
  have hfound : ∀ w : World, ((lastManifest root : Act Sim _).run.run w).1 = .ok (some manifest) ↔
      found? root w.here w.tree = some manifest := by
    intro w
    rw [found?_eq_some]
    rcases lastManifest_cases root w with ⟨hfile, hrun⟩ | ⟨e, hnot, hrun⟩ |
      ⟨bytes, value, found, hread, hvalue, hmanifest, hrun⟩
    · rw [hrun]
      refine iff_of_false (fun heq => by cases heq) ?_
      rintro ⟨bytes, value, hread, -⟩
      obtain ⟨hlocate, hnode⟩ := Tree.read_eq_ok.mp hread
      rw [Tree.isFile_iff.mpr ⟨hlocate, bytes, hnode⟩] at hfile
      cases hfile
    · rw [hrun]
      refine iff_of_false (fun heq => by cases heq) ?_
      rintro ⟨bytes, value, hread⟩
      exact hnot ⟨bytes, value, manifest, hread⟩
    · rw [hrun]
      constructor
      · intro heq
        obtain rfl := Option.some.inj (Except.ok.inj heq)
        exact ⟨bytes, value, hread, hvalue, hmanifest⟩
      · rintro ⟨bytes', value', hread', hvalue', hmanifest'⟩
        obtain rfl := Except.ok.inj (hread.symm.trans hread')
        obtain rfl := Option.some.inj (hvalue.symm.trans hvalue')
        rw [Except.ok.inj (hmanifest.symm.trans hmanifest')]
  rw [hfound] at hlast ⊢
  rwa [← h.here, ← h.tree]

end Backups

namespace Settings

theorem isIdle_load (siteRoot : Path) (given : List (Text × Json)) :
    IsIdle (load siteRoot given : Act Sim Settings).run := by
  refine IsIdle.bindAct (IsIdle.bindAct (IsIdle.isFile _).lift fun isFile => ?_) fun members => ?_
  · cases isFile with
    | false => exact .pure _
    | true =>
        refine IsIdle.bindAct (IsIdle.read _).os fun bytes => ?_
        split <;> exact .pure _
  · split <;> exact .pure _

end Settings

namespace Commands

open Terminal (printLine printErrorLine)

variable {name : CommandName} {settings : Settings}

theorem isIdle_complete (name : CommandName) (code : ExitCode) :
    IsIdle (complete name code : Sim ExitCode) :=
  (IsIdle.log _ _).bind fun _ => .pure _

theorem isIdle_refuse (name : CommandName) (code : ExitCode) (words : List Text) :
    IsIdle (refuse name code words : Sim ExitCode) :=
  (IsIdle.printError _).bind fun _ => isIdle_complete name code

theorem isIdle_printNumbered (number : Nat) (lines : List Text) :
    IsIdle (printNumbered number lines : Sim Unit) := by
  induction lines generalizing number with
  | nil => exact .pure _
  | cons line lines ih => exact (IsIdle.print _).bind fun _ => ih (number + 1)

theorem isIdle_printFailures (outcomes : List Outcome) :
    IsIdle (printFailures outcomes : Sim Unit) := by
  induction outcomes with
  | nil => exact .pure _
  | cons outcome outcomes ih => exact (IsIdle.printError _).bind fun _ => ih

theorem isIdle_nothingFound (name : CommandName) : IsIdle (nothingFound name : Sim ExitCode) :=
  (IsIdle.print _).bind fun _ => isIdle_complete name .success

theorem isIdle_announce (settings : Settings) (template : Path) :
    IsIdle (announce settings template : Sim Unit) :=
  (IsIdle.print _).bind fun _ => (IsIdle.print _).bind fun _ => IsIdle.print _

/-! ## Commands that only look -/

theorem isIdle_withTemplate {template : Text} {act : Path → Act Sim ExitCode}
    (h : IsIdle (act (settings.resolve template)).run) :
    IsIdle (withTemplate name settings template act).run := by
  refine IsIdle.bindAct (IsIdle.isFile _).lift fun isFile => ?_
  cases isFile with
  | false => exact (isIdle_refuse _ _ _).lift
  | true => exact h

theorem isIdle_findInstances (settings : Settings) (template : Text) :
    IsIdle (findInstances settings template : Act Sim ExitCode).run := by
  refine isIdle_withTemplate (IsIdle.lift ?_)
  refine (IsIdle.print _).bind fun _ => (Discovery.isIdle_instances _ _).bind fun found => ?_
  split
  · exact isIdle_nothingFound _
  · exact (IsIdle.print _).bind fun _ => (isIdle_printNumbered _ _).bind fun _ => isIdle_complete _ _

theorem isIdle_printRegions (file : Path) (bound? : Option Text) (segments : List Segment) :
    IsIdle (printRegions file bound? segments : Sim ExitCode) := by
  have hlisted : IsIdle (do
      if (regionLines segments).isEmpty then printLine ["No editable regions found."]
      else
        printLine ["Found ", .ofNat (regionLines segments).length, " editable region(s):\n"]
        printNumbered 1 (regionLines segments)
      complete .showRegions .success : Sim ExitCode) := by
    split
    · exact (IsIdle.print _).bind fun _ => isIdle_complete _ _
    · exact ((IsIdle.print _).bind fun _ => isIdle_printNumbered _ _).bind fun _ => isIdle_complete _ _
  refine (IsIdle.print _).bind fun _ => ?_
  cases bound? with
  | none => exact hlisted
  | some reference => exact (IsIdle.print _).bind fun _ => hlisted

theorem isIdle_showRegionsOf (file : Path) (text : Text) :
    IsIdle (showRegionsOf file text : Sim ExitCode) := by
  rw [showRegionsOf]
  dsimp only
  split
  · split
    · exact isIdle_printRegions _ _ _
    · exact isIdle_refuse _ _ _
  · split
    · split
      · exact isIdle_printRegions _ _ _
      · exact isIdle_refuse _ _ _
    · exact (IsIdle.print _).bind fun _ => isIdle_complete _ _

theorem isIdle_showRegions (settings : Settings) (file : Text) :
    IsIdle (showRegions settings file : Act Sim ExitCode).run := by
  refine IsIdle.bindAct (IsIdle.isFile _).lift fun isFile => ?_
  cases isFile with
  | false => exact (isIdle_refuse _ _ _).lift
  | true =>
      refine IsIdle.bindAct ((IsIdle.read _).bind fun _ => .pure _).os fun text => ?_
      exact (isIdle_showRegionsOf _ _).lift

/-! ## How commands end -/

/-- A step that leaves the disk alone and has an answer of a kind. -/
def Concludes (P : α → Prop) (act : Sim α) : Prop := ∀ w, Idle w (act.run w).2 ∧ P (act.run w).1

namespace Concludes

variable {P : α → Prop} {Q : β → Prop}

theorem pure {a : α} (h : P a) : Concludes P (Pure.pure a : Sim α) := fun w => ⟨Idle.refl w, h⟩

theorem bind {act : Sim α} (h : Concludes P act) {next : α → Sim β}
    (hnext : ∀ a, P a → Concludes Q (next a)) : Concludes Q (act >>= next) := fun w => by
  rw [StateT.run_bind]
  obtain ⟨hidle, hanswer⟩ := h w
  obtain ⟨hidle', hanswer'⟩ := hnext _ hanswer (act.run w).2
  exact ⟨hidle.trans hidle', hanswer'⟩

theorem after {act : Sim α} (h : IsIdle act) {next : α → Sim β}
    (hnext : ∀ a, Concludes Q (next a)) : Concludes Q (act >>= next) :=
  bind (P := fun _ => True) (fun w => ⟨h w, trivial⟩) fun a _ => hnext a

end Concludes

theorem concludes_complete (name : CommandName) (code : ExitCode) :
    Concludes (· = code) (complete name code : Sim ExitCode) :=
  .after (.log _ _) fun _ => .pure rfl

theorem concludes_refuse (name : CommandName) (code : ExitCode) (words : List Text) :
    Concludes (· = code) (refuse name code words : Sim ExitCode) :=
  .after (.printError _) fun _ => concludes_complete name code

/-- The answer is no refusal for safety. -/
def IsNoSkip (result : Except Failure ExitCode) : Prop := result ≠ .ok .safetySkip

theorem isNoSkip_error (e : Failure) : IsNoSkip (.error e) := fun h => by cases h

theorem isNoSkip_ok {code : ExitCode} (h : code ≠ .safetySkip) : IsNoSkip (.ok code) :=
  fun heq => h (Except.ok.inj heq)

theorem run_bind_of_run {act : Sim α} {a : α} (h : act.run w = (a, w')) (next : α → Sim β) :
    (act >>= next).run w = (next a).run w' := by
  rw [StateT.run_bind, h]
  rfl

theorem run_lift_bind (act : Sim α) (next : α → Act Sim β) (w : World) :
    ((liftM act : Act Sim α) >>= next).run.run w =
      (next (act.run w).1).run.run (act.run w).2 := rfl

/-! ## Updating -/

theorem codeAfter_ne (summary : RunSummary) (single : Bool) :
    codeAfter summary single ≠ .safetySkip := by
  have hcode : summary.exitCode ≠ .safetySkip := by
    rw [RunSummary.exitCode]
    split
    · exact ExitCode.noConfusion
    · split <;> exact ExitCode.noConfusion
  rw [codeAfter]
  split
  · exact ExitCode.noConfusion
  · exact hcode

/-- After a run over pages, a command only prints. -/
theorem runOver_cases (name : CommandName) (settings : Settings) (template : Path)
    (paths : List Path) (single : Bool) (w : World) :
    Idle ((Run.run ⟨settings, Terminal.frontEnd, .disk⟩ template paths
        (.initial settings) : Sim _).run w).2
      ((runOver name settings template paths single : Act Sim _).run.run w).2 ∧
    IsNoSkip ((runOver name settings template paths single : Act Sim _).run.run w).1 := by
  rw [runOver, ExceptT.run_mk, StateT.run_bind]
  rcases (Run.run ⟨settings, Terminal.frontEnd, .disk⟩ template paths
    (.initial settings) : Sim _).run w with ⟨⟨result, state⟩, w₁⟩
  cases result with
  | error e =>
      cases e with
      | template path fault =>
          refine Concludes.bind (concludes_refuse _ _ _) (fun code hcode => ?_) w₁
          exact .pure (isNoSkip_ok (hcode ▸ ExitCode.noConfusion))
      | _ => exact Concludes.pure (isNoSkip_error _) w₁
  | ok summary =>
      have hdone : Concludes IsNoSkip (do
          return .ok (← complete name (codeAfter summary single)) : Sim (Except Failure ExitCode)) :=
        (concludes_complete _ _).bind fun code hcode =>
          .pure (isNoSkip_ok (hcode ▸ codeAfter_ne summary single))
      refine Concludes.after (.print _) (fun _ => .after (isIdle_printFailures _) fun _ => ?_) w₁
      cases summary.manifest? with
      | none => exact hdone
      | some path => exact .after (.print _) fun _ => hdone

/-- The pages of a template that are found. -/
def found (settings : Settings) (template : Text) (w : World) : List Path :=
  ((Discovery.instances settings .disk (settings.resolve template) : Sim _).run w).1

/-- A page that an update goes over: one that is found or, if a page is named, that one under the name
it has been given. -/
def IsUpdated (settings : Settings) (request : UpdateRequest) (w : World) (path : Path) : Prop :=
  (∃ page ∈ found settings request.template w, place w.here path = place w.here page) ∧
    match request.only? with
    | none => path ∈ found settings request.template w
    | some only => path = settings.resolve only

theorem run_isAmong (page : Path) (paths : List Path) (w : World) :
    (isAmong page paths : Sim Bool).run w =
      ((paths.map (Tree.resolve w.here)).contains (Tree.resolve w.here page), w) := by
  have hmapM : ∀ paths : List Path, (paths.mapM Disk.resolve : Sim (List Path)).run w =
      (paths.map (Tree.resolve w.here), w) := by
    intro paths
    induction paths with
    | nil => rfl
    | cons path paths ih =>
        rw [List.mapM_cons, StateT.run_bind]
        show ((paths.mapM Disk.resolve >>= fun rest =>
          pure (Tree.resolve w.here path :: rest) : Sim (List Path)).run w) = _
        rw [StateT.run_bind, ih]
        rfl
  rw [isAmong, StateT.run_bind]
  show ((paths.mapM Disk.resolve >>= fun found =>
    pure (found.contains (Tree.resolve w.here page)) : Sim Bool).run w) = _
  rw [StateT.run_bind, hmapM]
  rfl

theorem place_eq_of_resolve {here : Loc} {p q : Path}
    (h : Tree.resolve here p = Tree.resolve here q) : place here p = place here q :=
  congrArg Path.parts h

/-- An update leaves the disk alone, or it comes to a run over pages. -/
theorem update_cases (name : CommandName) (settings : Settings) (request : UpdateRequest)
    (w : World) :
    Idle w ((update name settings request : Act Sim _).run.run w).2 ∨
    ∃ w₁ paths single, Idle w w₁ ∧ (∀ path ∈ paths, IsUpdated settings request w path) ∧
      (update name settings request : Act Sim _).run.run w =
        (runOver name settings (settings.resolve request.template) paths single : Act Sim _).run.run
          w₁ := by
  have hfile : (Disk.isFile (settings.resolve request.template) : Sim Bool).run w =
      (w.tree.isFile w.here (settings.resolve request.template), w) := rfl
  rw [update, withTemplate, run_lift_bind, hfile]
  cases w.tree.isFile w.here (settings.resolve request.template) with
  | false => exact Or.inl ((isIdle_refuse _ _ _).lift w)
  | true =>
      dsimp only
      rw [if_pos rfl, run_lift_bind, run_lift_bind]
      have hannounced := isIdle_announce settings (settings.resolve request.template) w
      generalize ((announce settings (settings.resolve request.template) : Sim Unit).run w).2 = w₁
        at hannounced
      have hlooked := hannounced.trans (Discovery.isIdle_instances settings
        (settings.resolve request.template) w₁)
      have hfound : ∀ path, path ∈ ((Discovery.instances settings .disk
          (settings.resolve request.template) : Sim _).run w₁).1 →
            path ∈ found settings request.template w :=
        fun path => (Discovery.mem_instances_of_idle hannounced).mp
      generalize (Discovery.instances settings .disk (settings.resolve request.template) :
        Sim (List Path)).run w₁ = looked at hlooked hfound
      obtain ⟨pages, w₂⟩ := looked
      dsimp only at hlooked hfound ⊢
      cases honly : request.only? with
      | none =>
          dsimp only
          split
          · exact Or.inl (hlooked.trans ((isIdle_nothingFound name).lift w₂))
          · refine Or.inr ⟨w₂, pages, false, hlooked, fun path hpath => ?_, rfl⟩
            rw [IsUpdated, honly]
            exact ⟨⟨path, hfound path hpath, rfl⟩, hfound path hpath⟩
      | some only =>
          dsimp only
          rw [run_lift_bind, run_isAmong]
          dsimp only
          split
          · next hamong =>
            -- the page may have been found under another spelling of its path
            refine Or.inr ⟨w₂, [settings.resolve only], true, hlooked, fun path hpath => ?_, rfl⟩
            obtain rfl := List.mem_singleton.mp hpath
            obtain ⟨page, hpage, hsame⟩ := List.mem_map.mp (List.contains_iff_mem.mp hamong)
            rw [hlooked.here] at hsame
            rw [IsUpdated, honly]
            exact ⟨⟨page, hfound page hpage, place_eq_of_resolve hsame.symm⟩, rfl⟩
          · exact Or.inl (hlooked.trans ((isIdle_refuse name _ _).lift w₂))

/-! ## Making a page -/

/-- A page that may be written: the way to it leads to nothing yet, or that does not matter. -/
def IsFree (w : World) (output : Path) (force : Bool) : Prop :=
  force = true ∨ w.tree.isThere w.here output = false

/-- Making a page once it is settled that it may be written. -/
theorem writePage_cases (settings : Settings) (template output : Path) (shown : Text) (w : World) :
    Idle w ((writePage settings template output shown : Act Sim _).run.run w).2 ∨
    ∃ w₁ bytes, (∃ document, ((Run.loadTemplate .disk template : Act Sim _).run.run w).1 =
        .ok document) ∧ Idle w w₁ ∧
      Idle (w₁.after (.replace output bytes))
        ((writePage settings template output shown : Act Sim _).run.run w).2 ∧
      IsNoSkip ((writePage settings template output shown : Act Sim _).run.run w).1 := by
  have hloaded := Run.idle_loadTemplate Storage.overDisk_disk template w
  rcases hload : (Run.loadTemplate .disk template : Act Sim Template).run.run w with ⟨loaded, w₁⟩
  rw [hload] at hloaded
  rw [writePage, ExceptT.run_mk, run_bind_of_run hload]
  cases loaded with
  | error e =>
      refine Or.inl (Idle.trans hloaded ?_)
      cases e with
      | template path fault => exact (isIdle_refuse _ _ _).bind (fun _ => .pure _) w₁
      | _ => exact IsIdle.pure _ w₁
  | ok document =>
      have hresolve : ∀ path, (Disk.resolve path : Sim Path).run w₁ = (Tree.resolve w₁.here path, w₁) :=
        fun _ => rfl
      have hwrite : ∀ text : Text, (Storage.disk.writeText output text : Sim _).run w₁ =
          ((w₁.tree.replace w₁.here w₁.tag output text.encode).2,
            w₁.after (.replace output text.encode)) := fun _ => rfl
      refine Or.inr ⟨w₁, (NewPage.create document (NewPage.reference
        (Tree.resolve w₁.here settings.siteRoot) (Tree.resolve w₁.here template)
        template.name)).encode, ⟨document, rfl⟩, hloaded, ?_⟩
      dsimp only
      rw [run_bind_of_run (hresolve _), run_bind_of_run (hresolve _), run_bind_of_run (hwrite _)]
      cases (w₁.tree.replace w₁.here w₁.tag output _).2 with
      | error e => exact Concludes.pure (isNoSkip_error _) _
      | ok _ =>
          refine Concludes.after (.print _) (fun _ => (concludes_complete _ _).bind ?_) _
          exact fun code hcode => .pure (isNoSkip_ok (hcode ▸ ExitCode.noConfusion))

/-- Making a page leaves the disk alone, or it comes to one file written. -/
theorem createPage_cases (settings : Settings) (template : Text) (output? : Option Text)
    (force : Bool) (w : World) :
    Idle w ((createPage settings template output? force : Act Sim _).run.run w).2 ∨
    ∃ shown w₁ bytes, output? = some shown ∧ IsFree w (settings.resolve shown) force ∧
      (∃ document, ((Run.loadTemplate .disk (settings.resolve template) : Act Sim _).run.run w).1 =
        .ok document) ∧ Idle w w₁ ∧
      Idle (w₁.after (.replace (settings.resolve shown) bytes))
        ((createPage settings template output? force : Act Sim _).run.run w).2 ∧
      IsNoSkip ((createPage settings template output? force : Act Sim _).run.run w).1 := by
  have hfile : (Disk.isFile (settings.resolve template) : Sim Bool).run w =
      (w.tree.isFile w.here (settings.resolve template), w) := rfl
  rw [createPage, withTemplate, run_lift_bind, hfile]
  cases w.tree.isFile w.here (settings.resolve template) with
  | false => exact Or.inl ((isIdle_refuse _ _ _).lift w)
  | true =>
      dsimp only
      rw [if_pos rfl]
      cases output? with
      | none => exact Or.inl ((isIdle_refuse _ _ _).lift w)
      | some shown =>
          have hthere : (Disk.isThere (settings.resolve shown) : Sim Bool).run w =
              (w.tree.isThere w.here (settings.resolve shown), w) := rfl
          dsimp only
          rw [run_lift_bind, hthere]
          dsimp only
          split
          · exact Or.inl ((isIdle_refuse _ _ _).lift w)
          · next hfree =>
            rw [Bool.and_eq_true, not_and_or, Bool.not_eq_true, Bool.not_eq_true,
              Bool.not_eq_false'] at hfree
            refine (writePage_cases settings _ _ shown w).imp_right fun ⟨w₁, bytes, h⟩ => ?_
            exact ⟨shown, w₁, bytes, rfl, hfree.symm, h⟩

/-! ## Undoing -/

/-- The answer tells neither that anything was left out for safety nor that it was cancelled. -/
def IsDone (result : Except Failure ExitCode) : Prop := IsNoSkip result ∧ result ≠ .ok .cancelled

theorem isDone_error (e : Failure) : IsDone (.error e) :=
  ⟨isNoSkip_error e, fun h => by cases h⟩

theorem isDone_success : IsDone (.ok .success) := ⟨isNoSkip_ok ExitCode.noConfusion, fun h => by cases h⟩

theorem isDone_failed : IsDone (.ok .error) := ⟨isNoSkip_ok ExitCode.noConfusion, fun h => by cases h⟩

theorem isIdle_printManifest (manifest : Manifest) : IsIdle (printManifest manifest : Sim Unit) :=
  (IsIdle.print _).bind fun _ => (IsIdle.print _).bind fun _ => (IsIdle.print _).bind fun _ =>
    IsIdle.print _

theorem isIdle_agrees (manifest : Manifest) (yes : Bool) : IsIdle (agrees manifest yes : Sim Bool) := by
  rw [agrees]
  split
  · exact .pure _
  · exact (IsIdle.print _).bind fun _ => (IsIdle.ask _ _ _).bind fun _ => .pure _

/-- Between two worlds the copies of the last manifest have been made back, and no more. -/
def PutsBack (root : Path) (w w' : World) : Prop :=
  ∃ manifest w₁, ((Backups.lastManifest root : Act Sim _).run.run w).1 = .ok (some manifest) ∧
    Idle w w₁ ∧ Idle ((Backups.restoreAll .disk manifest.entries : Sim _).run w₁).2 w'

theorem PutsBack.before {root : Path} {w₁ w' : World} (h : Idle w w₁) (h' : PutsBack root w₁ w') :
    PutsBack root w w' := by
  obtain ⟨manifest, w₂, hlast, hidle, hall⟩ := h'
  exact ⟨manifest, w₂, Backups.lastManifest_of_idle h hlast, h.trans hidle, hall⟩

theorem PutsBack.after {root : Path} {w₁ w' : World} (h : PutsBack root w w₁) (h' : Idle w₁ w') :
    PutsBack root w w' := by
  obtain ⟨manifest, w₂, hlast, hidle, hall⟩ := h
  exact ⟨manifest, w₂, hlast, hidle, hall.trans h'⟩

theorem restore_cases (root : Path) (w : World) :
    Idle w ((Backups.restore root .disk : Act Sim _).run.run w).2 ∨
      PutsBack root w ((Backups.restore root .disk : Act Sim _).run.run w).2 := by
  have hread := Backups.isIdle_lastManifest root w
  rcases hlast : (Backups.lastManifest root : Act Sim _).run.run w with ⟨last, w₁⟩
  rw [hlast] at hread
  rw [Backups.restore, run_bind, hlast]
  rcases last with e | _ | manifest
  · exact Or.inl hread
  · exact Or.inl hread
  · refine Or.inr ⟨manifest, w₁, by rw [hlast], hread, ?_⟩
    dsimp only
    rw [run_lift_bind]
    split
    · exact (IsIdle.bindAct (IsIdle.log _ _).lift fun _ => .pure _) _
    · exact IsIdle.pure _ _

theorem restoreAgreed_cases (settings : Settings) (w : World) :
    (Idle w ((restoreAgreed settings : Act Sim _).run.run w).2 ∨
      PutsBack settings.backupRoot w ((restoreAgreed settings : Act Sim _).run.run w).2) ∧
    IsDone ((restoreAgreed settings : Act Sim _).run.run w).1 := by
  have hrestore := restore_cases settings.backupRoot w
  rw [restoreAgreed, ExceptT.run_mk, StateT.run_bind]
  generalize (Backups.restore settings.backupRoot .disk : Act Sim _).run.run w = restored at hrestore ⊢
  obtain ⟨restored, w₁⟩ := restored
  have hends : ∀ act : Sim (Except Failure ExitCode), Concludes IsDone act →
      (Idle w (act.run w₁).2 ∨ PutsBack settings.backupRoot w (act.run w₁).2) ∧
        IsDone (act.run w₁).1 := by
    intro act hact
    obtain ⟨hidle, hdone⟩ := hact w₁
    exact ⟨hrestore.imp (Idle.trans · hidle) (PutsBack.after · hidle), hdone⟩
  cases restored with
  | ok count =>
      refine hends _ (.after (.print _) fun _ => (concludes_complete _ _).bind fun code hcode => ?_)
      exact .pure (hcode ▸ isDone_success)
  | error e =>
      cases e with
      | restore e =>
          cases e with
          | noManifest path =>
              refine hends _
                (.after (.print _) fun _ => (concludes_complete _ _).bind fun code hcode => ?_)
              exact .pure (hcode ▸ isDone_success)
          | partly succeeded failed =>
              refine hends _ ((concludes_refuse _ _ _).bind fun code hcode => ?_)
              exact .pure (hcode ▸ isDone_failed)
          | _ => exact hends _ (.pure (isDone_error _))
      | _ => exact hends _ (.pure (isDone_error _))

/-- What restoring does once the user has been asked. -/
def afterAsking (settings : Settings) (agreed : Bool) : Sim (Except Failure ExitCode) := do
  if agreed then (restoreAgreed settings).run
  else
    printLine ["\nRestore cancelled."]
    return .ok (← complete .restoreBackup .cancelled)

theorem afterAsking_cases (settings : Settings) (agreed : Bool) (w : World) :
    Idle w ((afterAsking settings agreed).run w).2 ∨
    PutsBack settings.backupRoot w ((afterAsking settings agreed).run w).2 ∧
      IsDone ((afterAsking settings agreed).run w).1 := by
  cases agreed with
  | true =>
      obtain ⟨hrestored, hdone⟩ := restoreAgreed_cases settings w
      exact hrestored.imp_right fun h => ⟨h, hdone⟩
  | false =>
      exact Or.inl (((IsIdle.print _).bind fun _ => (isIdle_complete _ _).bind fun _ => .pure _) w)

/-- Restoring leaves the disk alone, or it comes to the copies of the last manifest made back. -/
theorem restoreBackup_cases (settings : Settings) (yes : Bool) (w : World) :
    Idle w ((restoreBackup settings yes : Act Sim _).run.run w).2 ∨
    PutsBack settings.backupRoot w ((restoreBackup settings yes : Act Sim _).run.run w).2 ∧
      IsDone ((restoreBackup settings yes : Act Sim _).run.run w).1 := by
  have hread := Backups.isIdle_lastManifest settings.backupRoot w
  rw [restoreBackup, ExceptT.run_mk, StateT.run_bind]
  generalize (Backups.lastManifest settings.backupRoot : Act Sim _).run.run w = last at hread ⊢
  obtain ⟨last, w₁⟩ := last
  have hends : ∀ act : Sim (Except Failure ExitCode), IsIdle act → Idle w (act.run w₁).2 :=
    fun act hact => Idle.trans hread (hact w₁)
  rcases last with e | _ | manifest
  · refine Or.inl ?_
    cases e with
    | restore e => exact hends _ ((isIdle_refuse _ _ _).bind fun _ => .pure _)
    | _ => exact hends _ (.pure _)
  · exact Or.inl (hends _ ((IsIdle.print _).bind fun _ => (IsIdle.print _).bind fun _ =>
      (isIdle_complete _ _).bind fun _ => .pure _))
  · have hasked := Idle.trans hread (((isIdle_printManifest manifest).bind fun _ =>
      isIdle_agrees manifest yes) w₁)
    exact (afterAsking_cases settings _ _).imp hasked.trans fun h => ⟨h.1.before hasked, h.2⟩

end Commands

end Stencil
