import Stencil.FrontEnd.Basic

/-!
# Scripts

A script decides in place of a user: it gives out decisions in order, then always the same one, and
remembers everything it was shown. It may also stop the run when asked for the so-manieth time.
-/

namespace Stencil

structure Script where
  decisions : List Decision
  default : Decision
  cancelBefore? : Option Int
  polls : Nat
  prompts : List DiffSummary
  messages : List (Severity × Text)
  progress : List Text
deriving DecidableEq, Repr

namespace Script

def make (decisions : List Decision) (default : Decision) (cancelBefore? : Option Int) : Script :=
  ⟨decisions, default, cancelBefore?, 0, [], [], []⟩

def confirm (summary : DiffSummary) (s : Script) : Decision × Script :=
  let shown := { s with prompts := s.prompts ++ [summary] }
  match s.decisions with
  | decision :: rest => (decision, { shown with decisions := rest })
  | [] => (s.default, shown)

def notify (severity : Severity) (message : Text) (s : Script) : Script :=
  { s with messages := s.messages ++ [(severity, message)] }

def report (message : Text) (s : Script) : Script :=
  { s with progress := s.progress ++ [message] }

/-- Whether the run is to stop, asked once more. -/
def isCancelled (s : Script) : Bool × Script :=
  let polls := s.polls + 1
  ((s.cancelBefore?.map fun (n : Int) => decide (n ≤ (polls : Int))).getD false, { s with polls })

end Script

end Stencil
