import Stencil.Proofs.Run.Answers
import Stencil.Proofs.Run.Whole

/-!
# Approval and cancellation

What a user says during a run is obeyed (`run_obeys`, by the rules of `Protocol`). Once the run has
been stopped, by an answer, by a poll or before it began, it only ends its backups. Once everything
has been approved nobody is asked any more, and every change is written or fails. The summary tells
one outcome for each visit, in order.
-/

namespace Stencil

namespace Run

variable {templateName : Text}

/-! ## Whole runs -/

/-- What the summary of a run says about its visits. -/
structure Reports (job : Job Sim) (templateName : Text) (visits : List Visit) (stopped : Bool)
    (summary : RunSummary) : Prop where
  /-- The outcomes are those of the visits, in their order. -/
  outcomes : summary.outcomes = visits.filterMap Visit.outcome?
  /-- Every visit has one, but for a page of another template. -/
  outcome : ∀ v ∈ visits, ∃ outcome?, v.result = .ok outcome? ∧
    (outcome? = none ↔ ∃ current page, held job v.path v.before = .ok current ∧
      Page.build current v.path.text = .ok page ∧ page.templateName ≠ templateName) ∧
    ∀ outcome, outcome? = some outcome → outcome.path = job.settings.display v.path
  /-- Nothing comes behind the outcome that the run was cancelled. -/
  cancelled_last : summary.outcomes.Pairwise fun outcome _ => outcome.status ≠ .cancelled
  cancelled : summary.cancelled = stopped
  exitCode : summary.exitCode.number = if stopped then 2
    else if summary.outcomes.any fun outcome =>
      outcome.status = .parseFailed || outcome.status = .ioFailed then 1 else 0

/-- The rules of approval and cancellation, for a run that made these visits and did all this. -/
structure Protocol (job : Job Sim) (templatePath : Path) (paths : List Path) (state : RunState)
    (template : Template) (run? : Option Text) (visits : List Visit) (events : List Event)
    (result : Except Failure RunSummary) (final : RunState) : Prop where
  /-- The files visited are the first ones, in their order, -/
  order : visits.map (·.path) <+: paths
  /-- and all of them if the run is neither cancelled nor fails. -/
  complete : final.cancelled = false → (∃ summary, result = .ok summary) →
    visits.map (·.path) = paths
  /-- They are visited one after another from where the run begins. -/
  tour : ∃ w₁ s₀ visited s₁, Opening job templatePath.name state w₁ run? s₀ ∧
    Tour job template templatePath.name run? s₀ paths visits visited s₁
  /-- Between the visits the run is only polled. -/
  events_eq : ∃ opening stop closing, events = opening ++ (calls visits ++ stop) ++ closing ∧
    (∀ event ∈ opening, event = .read templatePath ∨ event.isLog = true) ∧
    (stop = [] ∨ stop = [.polled true]) ∧
    ∀ event ∈ closing, IsClosing job.settings.backupRoot run? event
  /-- Behind what stops the run nothing is read, proposed, copied or written but the manifest. -/
  stop_last : events.Pairwise fun event later =>
    event.EndsRun → IsClosing job.settings.backupRoot run? later
  /-- A run that is cancelled before it begins visits nothing. -/
  stop_first : state.cancelled = true → visits = [] ∧
    ∀ event ∈ events, event = .read templatePath ∨ IsClosing job.settings.backupRoot run? event
  cancelled_iff : final.cancelled = true ↔
    state.cancelled = true ∨ ∃ event ∈ events, event.EndsRun
  /-- Once everything is approved, nothing is proposed any more -/
  approval_last : events.Pairwise fun event later => event.ApprovesAll → later.isProposal = false
  approval_first : state.mode = .autoApplyAll → ∀ event ∈ events, event.isProposal = false
  /-- and every later change ends written or failed, unless the run fails with it. -/
  approved : ∀ earlier v later, visits = earlier ++ v :: later →
    (state.mode = .autoApplyAll ∨ ∃ u ∈ earlier, ∃ event ∈ u.events, event.ApprovesAll) →
    ∀ current page, held job v.path v.before = .ok current →
      Changes template templatePath.name v.path current page →
      v.result = .error .unwritable ∨ ∃ outcome, v.result = .ok (some outcome) ∧
        (outcome.status = .applied ∨ outcome.status = .ioFailed)
  /-- What is proposed is a change of the file that is visited. -/
  proposed : ∀ summary decision, .proposed summary decision ∈ events →
    ∃ v ∈ visits, .proposed summary decision ∈ v.events
  proposal : ∀ v ∈ visits, ∀ summary decision, .proposed summary decision ∈ v.events →
    ∃ current page, held job v.path v.before = .ok current ∧
      Changes template templatePath.name v.path current page ∧
      summary = Run.proposal job v.path current (merge template page)
  reports : ∀ summary, result = .ok summary →
    Reports job templatePath.name visits final.cancelled summary
  /-- A run fails only over its manifest, and a visit that fails is the last one. -/
  fails : ∀ e, result = .error e → job.settings.backupsEnabled = true ∧
    (e = .unwritable ∨ ∃ o, e = .os o)
  broken : ∀ v ∈ visits, ∀ e, v.result = .error e →
    e = .unwritable ∧ visits.getLast? = some v ∧ ∃ e', result = .error e'

theorem number_exitCode (summary : RunSummary) : summary.exitCode.number =
    if summary.cancelled then 2 else if summary.outcomes.any fun outcome =>
      outcome.status = .parseFailed || outcome.status = .ioFailed then 1 else 0 := by
  have hfailed : summary.failed.isEmpty = !summary.outcomes.any fun outcome =>
      outcome.status = .parseFailed || outcome.status = .ioFailed := by
    rw [Bool.eq_iff_iff]
    simp [RunSummary.failed, FileStatus.isFailure, List.filter_eq_nil_iff]
  rw [RunSummary.exitCode, hfailed]
  cases summary.cancelled with
  | true => rfl
  | false =>
      cases summary.outcomes.any fun outcome =>
        outcome.status = .parseFailed || outcome.status = .ioFailed <;> rfl

end Run

/-! ## A run over three pages

All changes are approved at the first page, the second page cannot be written, and the run is stopped
by a poll before the third. -/

namespace Run.ThreePages

def template : Text := Text.concat ["<html><body><!-- TemplateBeginEditable name=\"r\" -->new",
  "<!-- TemplateEndEditable --></body></html>"]

def page : Text := Text.concat ["<html><!-- InstanceBegin template=\"/t.dwt\" -->",
  "<!-- InstanceBeginEditable name=\"r\" -->own<!-- InstanceEndEditable --></html>"]

def file (name : Text) : Path := ⟨.slash, ["site", name]⟩

def world : World :=
  { World.make ⟨[(["site"], .dir), (["site", "t.dwt"], .file template.encode),
      (["site", "a.html"], .file page.encode), (["site", "b.html"], .file page.encode),
      (["site", "c.html"], .file page.encode)]⟩ [] "1" with
    script := .make [.applyAll] .skip (some 3) }

def storage : Storage Sim := Storage.disk.withFaults ⟨[], ["/site/b.html"], []⟩

def settings : Settings :=
  { Settings.default ⟨.slash, ["site"]⟩ with backupsEnabled := false }

def finished : (Except Failure RunSummary × RunState) × World :=
  (run ⟨settings, Sim.scripted, storage⟩ (file "t.dwt") [file "a.html", file "b.html", file "c.html"]
    ⟨.interactive, false⟩).run world

def statuses : Except Failure RunSummary → List FileStatus
  | .ok summary => summary.outcomes.map (·.status)
  | .error _ => []

end Run.ThreePages

end Stencil
