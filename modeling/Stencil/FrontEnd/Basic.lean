import Stencil.Diff.Summary
import Stencil.Failure

/-!
# Front ends

A run talks to its user through a front end: it proposes changes, reports what happens, and asks
between files whether it should stop. How that looks is up to the front end.
-/

namespace Stencil

/-- What the user wants done with a proposed change. An answer that has no meaning here counts as
approval of the one change. -/
inductive Decision where
  | apply
  | applyAll
  | skip
  | cancel
  | other (label : Text)
deriving DecidableEq, Repr

namespace Decision

def label : Decision → Text
  | apply => "apply"
  | applyAll => "apply_all"
  | skip => "skip"
  | cancel => "cancel"
  | other label => label

def ofLabel (t : Text) : Decision :=
  ([apply, applyAll, skip, cancel].find? fun d => d.label = t).getD (other t)

theorem ofLabel_label_of_ne_other (d : Decision) (h : ∀ t, d ≠ .other t) :
    ofLabel d.label = d := by
  cases d with
  | other t => exact absurd rfl (h t)
  | _ => decide +kernel

end Decision

inductive Severity where
  | info
  | warning
  | error
  | other (label : Text)
deriving DecidableEq, Repr

namespace Severity

def label : Severity → Text
  | info => "info"
  | warning => "warning"
  | error => "error"
  | other label => label

def ofLabel (t : Text) : Severity :=
  ([info, warning, error].find? fun s => s.label = t).getD (other t)

end Severity

structure FrontEnd (m : Type → Type) where
  /-- Shows a proposed change and returns the decision on it. -/
  confirm : DiffSummary → m (Except PromptError Decision)
  notify : Severity → Text → m Unit
  progress : Text → m Unit
  /-- Asked between files; a run that is cancelled touches no further file. -/
  isCancelled : m Bool

end Stencil
