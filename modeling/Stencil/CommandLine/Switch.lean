import Stencil.Text.Basic

/-!
# Switches

The switches of the command line, all levels together. A switch has one or more spellings, and
either takes a value or does not.
-/

namespace Stencil

inductive Switch where
  | help
  | cwd
  | verbose
  | timeout
  | only
  | autoApply
  | noBackup
  | output
  | force
  | yes
deriving DecidableEq, Repr

namespace Switch

/-- The spellings, in the order they are shown in. -/
def spellings : Switch → List Text
  | help => ["-h", "--help"]
  | cwd => ["--cwd"]
  | verbose => ["--verbose", "-v"]
  | timeout => ["--timeout"]
  | only => ["--instance", "-i"]
  | autoApply => ["--auto-apply", "-a"]
  | noBackup => ["--no-backup"]
  | output => ["--output", "-o"]
  | force => ["--force"]
  | yes => ["--yes", "-y"]

def takesValue : Switch → Bool
  | cwd | timeout | only | output => true
  | _ => false

/-- How a switch is called in messages. -/
def label (s : Switch) : Text := Text.join "/" s.spellings

/-- The spellings of several switches, in order, each with its switch. -/
def spelled (switches : List Switch) : List (Text × Switch) :=
  switches.flatMap fun s => s.spellings.map fun spelling => (spelling, s)

/-- The switch with this spelling. -/
def find? (switches : List Switch) (spelling : Text) : Option Switch :=
  (spelled switches).lookup spelling

end Switch

/-- What the words of a level stand for. -/
inductive Words where
  | none
  /-- One word, known by a name. -/
  | one (name : Text)
  /-- A word and everything behind it, known by a name. -/
  | rest (name : Text)
deriving DecidableEq, Repr

/-- What may stand on a level of the command line: the program's own, or that of a command. -/
structure Grammar where
  /-- How the level is called in messages. -/
  program : Text
  switches : List Switch
  words : Words
deriving DecidableEq, Repr

end Stencil
