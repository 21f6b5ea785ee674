import Stencil.Merge
import Stencil.Path

/-!
# Outcomes of a run
-/

namespace Stencil

/-- What became of a file. -/
inductive FileStatus where
  | applied
  | skippedByUser
  | skippedNoChange
  | cancelled
  | parseFailed
  | ioFailed
deriving DecidableEq, Repr

namespace FileStatus

def label : FileStatus → Text
  | applied => "applied"
  | skippedByUser => "skipped_by_user"
  | skippedNoChange => "skipped_no_change"
  | cancelled => "cancelled"
  | parseFailed => "parse_failed"
  | ioFailed => "io_failed"

def all : List FileStatus :=
  [applied, skippedByUser, skippedNoChange, cancelled, parseFailed, ioFailed]

def ofLabel? (t : Text) : Option FileStatus := all.find? fun status => status.label = t

theorem ofLabel?_label (status : FileStatus) : ofLabel? status.label = some status := by
  cases status <;> decide +kernel

def isFailure (status : FileStatus) : Bool := status = parseFailed || status = ioFailed

end FileStatus

structure Outcome where
  path : Text
  status : FileStatus
  message : Text
  changes : List Change
deriving DecidableEq, Repr

/-- How the program ends. -/
inductive ExitCode where
  | success
  | error
  | cancelled
  /-- The one file that was asked for was skipped by the user. -/
  | skipped
  /-- Nothing was done because it would not have been safe. -/
  | safetySkip
deriving DecidableEq, Repr

def ExitCode.number : ExitCode → Nat
  | .success => 0
  | .error => 1
  | .cancelled => 2
  | .skipped => 3
  | .safetySkip => 4

structure RunSummary where
  templateName : Text
  outcomes : List Outcome
  cancelled : Bool
  manifest? : Option Path
deriving DecidableEq, Repr

namespace RunSummary

def count (s : RunSummary) (status : FileStatus) : Nat :=
  (s.outcomes.filter fun outcome => outcome.status = status).length

def failed (s : RunSummary) : List Outcome :=
  s.outcomes.filter fun outcome => outcome.status.isFailure

def exitCode (s : RunSummary) : ExitCode :=
  if s.cancelled then .cancelled else if s.failed.isEmpty then .success else .error

def render (s : RunSummary) : Text :=
  let counted (n : Nat) (word : Text) : Text := Text.concat [.ofNat n, " ", word]
  Text.concat [s.templateName, ": ",
    Text.join ", "
      ([counted (s.count .applied) "applied", counted (s.count .skippedByUser) "skipped",
          counted (s.count .skippedNoChange) "unchanged"] ++
        (if s.failed.isEmpty then [] else [counted s.failed.length "failed"]) ++
        (if s.cancelled then [Text.ofString "run cancelled"] else []))]

end RunSummary

end Stencil
