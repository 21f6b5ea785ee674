import Stencil.FrontEnd.Basic
import Stencil.Host
import Stencil.Text.Case
import Stencil.Unicode.Digit

/-!
# The terminal

Changes are shown on the screen and decided by the number of an option; messages go to the error
stream. The first interrupt of a run asks it to stop after the current file; a second one reaches
the program itself.
-/

namespace Stencil.Terminal

/-! ## Answers -/

/-- Whether an answer shows digits only, raised and circled ones included. -/
def isDigits (t : Text) : Bool := !t.isEmpty && t.all fun g => Unicode.isDigit g.code

/-- The number that digits write. Only decimal digits do, and not too many of them. -/
def readNumber (t : Text) : Except PromptError Nat :=
  let value? (g : Glyph) : Option Nat := Unicode.decimalValue? g.code
  let leading := t.takeWhile fun g => (value? g).isSome
  if PromptError.digitLimit < leading.length then .error (.tooLong leading.length)
  else if leading.length < t.length then .error (.notDecimal t)
  else .ok ((t.filterMap value?).foldl (fun n d => n * 10 + d) 0)

def choices : List (Text × Decision) :=
  [("Apply", .apply), ("Apply to All", .applyAll), ("Skip", .skip), ("Cancel", .cancel)]

/-- The decision an answer picks, if it is the number of one. -/
def judge (answer : Text) : Option (Except PromptError Decision) :=
  let choice := answer.trim
  if isDigits choice then
    match readNumber choice with
    | .error e => some (.error e)
    | .ok 0 => none
    | .ok (n + 1) => choices[n]?.map fun entry => .ok entry.2
  else none

/-- Whether an answer consents. -/
def isYes (answer : Text) : Bool :=
  let word := Text.lower answer.trim
  word = "y" || word = "yes"

/-! ## Prompts -/

variable {m : Type → Type} [Monad m] [Console m]

def printLine (words : List Text) : m Unit := Console.print (Text.concat words ++ [.char '\n'])

def printErrorLine (words : List Text) : m Unit :=
  Console.printError (Text.concat words ++ [.char '\n'])

def printOptions (number : Nat) : List (Text × Decision) → m Unit
  | [] => return ()
  | (label, _) :: rest => do
    printLine ["  ", .ofNat number, ". ", label]
    printOptions (number + 1) rest

def choicePrompt : Text := "Select an option (number): "

/-- What is printed for an answer that picks nothing. -/
def complaint : Text :=
  Text.concat ["Please enter a number between 1 and ", .ofNat choices.length, ".\n"]

/-- Shows a change and asks until an option is picked; the end of the input cancels. -/
def confirm (summary : DiffSummary) : m (Except PromptError Decision) := do
  printLine ["\n=== Diff for ", summary.path, " ===\n"]
  match summary.render with
  | .error e => return .error (.unknownLabel e.label)
  | .ok render =>
    printLine [if render.isEmpty then "No changes detected." else render]
    printLine ["\n[INFO] Apply changes to ", summary.path, "?"]
    printLine ["Options:"]
    printOptions 1 choices
    return (← Console.ask choicePrompt complaint judge).getD (.ok .cancel)

/-- Asks for consent; the end of the input refuses it. -/
def askYesNo (message : Text) : m Bool := do
  printLine ["[WARNING] ", message]
  return (← Console.ask "Confirm (y/N): " [] fun answer => some (isYes answer)).getD false

def notify (severity : Severity) (message : Text) : m Unit :=
  printErrorLine ["[", Text.upper severity.label, "] ", message]

def progress (message : Text) : m Unit := printErrorLine ["  ", message]

def frontEnd : FrontEnd m := ⟨confirm, notify, progress, Console.stopRequested⟩

/-! ## Interrupts -/

/-- Whether a stop has been asked for, and whether the next interrupt would ask for one. -/
structure Interrupts where
  stopRequested : Bool
  watching : Bool
deriving DecidableEq, Repr

namespace Interrupts

def idle : Interrupts := ⟨false, false⟩

/-- Asks for a stop. -/
def requestStop (i : Interrupts) : Interrupts := { i with stopRequested := true }

def notice : Text := "\nCancelling after the current file...\n"

/-- One interrupt. While they are watched it asks for a stop, and the watch is over; else it is not
handled here. -/
def deliver (i : Interrupts) : Option Interrupts := if i.watching then some ⟨true, false⟩ else none

/-- So many interrupts one after the other, up to the one that is not handled: what is said about
them, and whether all were handled. -/
def deliverAll : Nat → Interrupts → Interrupts × Text × Bool
  | 0, i => (i, [], true)
  | n + 1, i =>
    match i.deliver with
    | none => (i, [], false)
    | some i =>
      let (i, said, handled) := deliverAll n i
      (i, notice ++ said, handled)

/-- So many interrupts while they are watched; afterwards they are not. -/
def duringWatch (n : Nat) (i : Interrupts) : Interrupts × Text × Bool :=
  let (i, said, handled) := deliverAll n { i with watching := true }
  ({ i with watching := false }, said, handled)

end Interrupts

end Stencil.Terminal
