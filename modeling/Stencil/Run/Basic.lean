import Stencil.Backup.Runs
import Stencil.FrontEnd.Basic
import Stencil.Run.Summary

/-!
# Runs

A run takes one template over its pages, strictly in the order given. Each page is read, merged
with the template and, if that changes it, proposed to the user; only an approved page is written,
and only after a snapshot of it when backups are kept. A page that cannot be read, is malformed or
cannot be written does not stop the run. Pages of other templates are passed over in silence.

Two things carry over from file to file: that the user has approved all further changes, and that
the user has cancelled. A cancelled run reads no further file. What was written stays written, and
undoing it goes through the manifest that ends the run.
-/

namespace Stencil

inductive RunMode where
  | interactive
  | autoApplyAll
deriving DecidableEq, Repr

def RunMode.label : RunMode → Text
  | .interactive => "interactive"
  | .autoApplyAll => "auto_apply_all"

/-- What has been approved or cancelled for the rest of a run. -/
structure RunState where
  mode : RunMode
  cancelled : Bool
deriving DecidableEq, Repr

def RunState.initial (s : Settings) : RunState :=
  ⟨if s.autoApply then .autoApplyAll else .interactive, false⟩

namespace Run

/-- What a run works with. -/
structure Job (m : Type → Type) where
  settings : Settings
  frontEnd : FrontEnd m
  storage : Storage m

/-- What changes during a run. -/
structure Progress where
  state : RunState
  backups : Backups
  outcomes : List Outcome
deriving DecidableEq, Repr

/-- A computation within a run. What it has changed stays when it fails. -/
abbrev RunAct (m : Type → Type) := ExceptT Failure (StateT Progress m)

variable {m : Type → Type} [Monad m]

def perform {α : Type} (act : Act m α) : RunAct m α := ExceptT.mk (StateT.lift act.run)

/-- A step of the host. -/
def host {α : Type} (act : m α) : RunAct m α := perform (ExceptT.lift act)

/-- A computation on the backups of the run. -/
def backup {α : Type} (act : BackupAct m α) : RunAct m α := ExceptT.mk fun progress => do
  let (result, backups) ← act.run progress.backups
  return (result, { progress with backups })

/-- Turns a failed file operation into an answer; other failures go on. -/
def tryOs {α : Type} (act : RunAct m α) : RunAct m (Except OsError α) := ExceptT.mk do
  match ← act.run with
  | .ok a => return .ok (.ok a)
  | .error (.os e) => return .ok (.error e)
  | .error e => return .error e

def log [Log m] (level : Level) (words : List Text) : RunAct m Unit :=
  host (Log.log level (Text.concat words))

/-- Reads a template. -/
def loadTemplate (storage : Storage m) (path : Path) : Act m Template := do
  let text ← Act.os (storage.readText path)
  match Template.build text path.text with
  | .ok template => return template
  | .error fault => throw (.template path fault)

variable [Disk m] [Log m]

/-- What the user decides, or has decided before. -/
def decideOn (job : Job m) (shown old new : Text) (changes : List Change) : RunAct m Decision := do
  if (← get).state.mode = .autoApplyAll then return .apply
  else
    let summary := DiffSummary.make shown old new job.settings.diffContextLines
      (changes.map ReportLine.ofChange)
    match ← host (job.frontEnd.confirm summary) with
    | .error e => throw (.prompt e)
    | .ok decision =>
      match decision with
      | .applyAll => modify fun p => { p with state := { p.state with mode := .autoApplyAll } }
      | .cancel => modify fun p => { p with state := { p.state with cancelled := true } }
      | _ => pure ()
      return decision

/-- Writes an approved page, after a snapshot if the run keeps backups. -/
def write (job : Job m) (run? : Option Text) (path : Path) (text : Text) : RunAct m Unit := do
  match run? with
  | some run => discard (backup (Backups.snapshot job.storage run path))
  | none => pure ()
  perform (Act.os (job.storage.writeText path text))

/-- One file; nothing comes back for a page of another template. -/
def visit (job : Job m) (template : Template) (templateName : Text) (run? : Option Text)
    (path : Path) : RunAct m (Option Outcome) := do
  let shown := job.settings.display path
  host (job.frontEnd.progress (Text.concat ["Processing ", shown]))
  match ← host (job.storage.readText path) with
  | .error e =>
    log .error ["Cannot read ", shown, ": ", e.message]
    host (job.frontEnd.notify .error (Text.concat ["Cannot read ", shown, ": ", e.message]))
    return some ⟨shown, .ioFailed, e.message, []⟩
  | .ok current =>
    match Page.build current path.text with
    | .error fault =>
      log .warning ["Skipping ", shown, ": ", fault.message]
      host (job.frontEnd.notify .warning (Text.concat ["Skipping ", shown, ": ", fault.message]))
      return some ⟨shown, .parseFailed, fault.message, []⟩
    | .ok page =>
      if page.templateName ≠ templateName then
        log .debug [shown, " is bound to ", page.templateName, "; not a candidate"]
        return none
      else
        let merged := merge template page
        if merged.text = current then
          log .debug [shown, " already up to date"]
          return some ⟨shown, .skippedNoChange, [], merged.changes⟩
        else
          match ← decideOn job shown current merged.text merged.changes with
          | .skip =>
            log .info ["Skipped ", shown]
            return some ⟨shown, .skippedByUser, [], merged.changes⟩
          | .cancel =>
            log .info ["Run cancelled at ", shown]
            return some ⟨shown, .cancelled, [], merged.changes⟩
          | _ =>
            match ← tryOs (write job run? path merged.text) with
            | .error e =>
              log .error ["Cannot update ", shown, ": ", e.message]
              host (job.frontEnd.notify .error
                (Text.concat ["Cannot update ", shown, ": ", e.message]))
              return some ⟨shown, .ioFailed, e.message, merged.changes⟩
            | .ok () =>
              log .info ["Updated ", shown]
              return some ⟨shown, .applied, [], merged.changes⟩

/-- Whether the run is over: it has been cancelled, or the front end says so when it is asked. -/
def isStopped (job : Job m) : RunAct m Bool := do
  if (← get).state.cancelled then return true else host job.frontEnd.isCancelled

/-- The files in order, until the run is cancelled. -/
def visitAll (job : Job m) (template : Template) (templateName : Text) (run? : Option Text) :
    List Path → RunAct m Unit
  | [] => pure ()
  | path :: paths => do
    if ← isStopped job then
      modify fun p => { p with state := { p.state with cancelled := true } }
    else
      match ← visit job template templateName run? path with
      | none => visitAll job template templateName run? paths
      | some outcome =>
        modify fun p => { p with outcomes := p.outcomes ++ [outcome] }
        if outcome.status = .cancelled then pure ()
        else visitAll job template templateName run? paths

/-- Ends the backups of a run: with a manifest if anything was backed up, and without a trace
otherwise. -/
def close : Option Text → RunAct m (Option Path)
  | none => return none
  | some run => do
    if (← backup (Backups.pending run)).entries.isEmpty then
      backup (Backups.discard run)
      return none
    else return some (← backup (Backups.finalize run))

/-- A run over files that have been found. The backups are ended whatever happens, and a failure to
end them goes before the failure that ended the run. -/
def overFiles (job : Job m) (template : Template) (templateName : Text) (run? : Option Text)
    (paths : List Path) : RunAct m RunSummary := ExceptT.mk do
  let visited ← (visitAll job template templateName run? paths).run
  match visited, ← (close run?).run with
  | _, .error e => return .error e
  | .error e, .ok _ => return .error e
  | .ok (), .ok manifest? =>
    let progress ← get
    let summary : RunSummary :=
      ⟨templateName, progress.outcomes, progress.state.cancelled, manifest?⟩
    StateT.lift (Log.log .info summary.render)
    return .ok summary

/-- A run of the template at a path. Returns what came of it and what is approved and cancelled
afterwards. -/
def run [Clock m] (job : Job m) (templatePath : Path) (paths : List Path) (state : RunState) :
    m (Except Failure RunSummary × RunState) := do
  match ← (loadTemplate job.storage templatePath).run with
  | .error e => return (.error e, state)
  | .ok template =>
    let templateName := templatePath.name
    let all : RunAct m RunSummary := do
      let run? ← if job.settings.backupsEnabled then some <$> backup (Backups.begin templateName)
        else pure none
      log .info ["Updating instances of ", templateName, " (mode=", state.mode.label, ")"]
      overFiles job template templateName run? paths
    let (result, progress) ← all.run ⟨state, Backups.ofSettings job.settings, []⟩
    return (result, progress.state)

end Run

end Stencil
