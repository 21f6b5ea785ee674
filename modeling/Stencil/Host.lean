import Stencil.Disk.Error
import Stencil.Text.Bytes

/-!
# What a program asks of its host

The programs of this library are written over any monad that offers these operations. The command
line runs them on the machine, and a world held in memory runs them as functions, which is where
they are reasoned about. Operations that may fail answer with the failure, so that nothing is lost
of the state they leave behind.
-/

namespace Stencil

/-- Files and directories. -/
class Disk (m : Type → Type) where
  isFile : Path → m Bool
  isDir : Path → m Bool
  isThere : Path → m Bool
  /-- The path from the root, without double dots and links. -/
  resolve : Path → m Path
  /-- The files below a directory, as components from it, in any order. Directories with a name
  that is to be skipped are not entered. -/
  walk : Path → (skip : Text → Bool) → m (List (List Text))
  read : Path → m (Except OsError Bytes)
  /-- Replaces a file whole or not at all, making the directories above it. -/
  replace : Path → Bytes → m (Except OsError Unit)
  /-- Copies a file, making the directories above the copy. -/
  copy : (source target : Path) → m (Except OsError Unit)
  removeTree : Path → m (Except OsError Unit)

inductive Level where
  | debug
  | info
  | warning
  | error
deriving DecidableEq, Repr

def Level.name : Level → Text
  | .debug => "DEBUG"
  | .info => "INFO"
  | .warning => "WARNING"
  | .error => "ERROR"

/-- Details are recorded only when asked for. -/
def Level.isShown (verbose : Bool) (level : Level) : Bool := verbose || level ≠ .debug

/-- A line of the record, at a time. -/
def logLine (time : Text) (level : Level) (text : Text) : Text :=
  Text.concat [time, " ", level.name, " ", text, "\n"]

/-- The record of what the program did. -/
class Log (m : Type → Type) where
  log : Level → Text → m Unit

/-- The user's terminal. -/
class Console (m : Type → Type) where
  print : Text → m Unit
  printError : Text → m Unit
  /-- Asks until an answer is judged well, complaining after each one that is not. Nothing comes
  back when the input ends first. -/
  ask : {α : Type} → (prompt complaint : Text) → (judge : Text → Option α) → m (Option α)
  /-- Whether the user has asked for the run to stop. -/
  stopRequested : m Bool

/-- A name for a run that no other run has, and the time it was given. -/
structure Stamp where
  run : Text
  time : Text
deriving DecidableEq, Repr

class Clock (m : Type → Type) where
  stamp : m Stamp

end Stencil
