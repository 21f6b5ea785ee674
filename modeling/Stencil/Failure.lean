import Stencil.Backup.Manifest
import Stencil.Disk.Error
import Stencil.Document.Fault
import Stencil.Settings

/-!
# Failures

Everything that can end an operation other than with its answer, and what is said about it.
-/

namespace Stencil

/-- Why the last backup is not fully restored. -/
inductive RestoreError where
  /-- There is no manifest, and nothing was touched. -/
  | noManifest (path : Path)
  /-- The manifest is not JSON. -/
  | unreadable (path : Path)
  | malformed (reason : ManifestError)
  /-- Some entries were restored and some were not; the former stay restored. -/
  | partly (succeeded : Nat) (failed : List (Text × Text))
deriving DecidableEq, Repr

def RestoreError.message : RestoreError → Text
  | .noManifest path => Text.concat ["No backup manifest at ", path.text]
  | .unreadable path =>
    Text.concat ["Unreadable backup manifest ", path.text, ": not a JSON document"]
  | .malformed reason => reason.message
  | .partly succeeded failed =>
    Text.concat ["Restored ", .ofNat succeeded, " file(s); ", .ofNat failed.length, " failed: ",
      Text.join ", " (failed.map (·.1))]

/-- Why a prompt has no answer. -/
inductive PromptError where
  /-- Digits throughout, though not all of them decimal ones. -/
  | notDecimal (answer : Text)
  /-- More digits than are read as a number. -/
  | tooLong (digits : Nat)
  /-- A region with a status that the summary cannot describe. -/
  | unknownLabel (label : Text)
deriving DecidableEq, Repr

namespace PromptError

/-- How many digits are read as a number. -/
def digitLimit : Nat := 4300

def message : PromptError → Text
  | notDecimal answer =>
    Text.concat ["invalid literal for int() with base 10: ", answer.quoted.take 200]
  | tooLong digits =>
    Text.concat ["Exceeds the limit (", .ofNat digitLimit,
      " digits) for integer string conversion: value has ", .ofNat digits,
      " digits; use sys.set_int_max_str_digits() to increase the limit"]
  | unknownLabel label => label.quoted

end PromptError

inductive Failure where
  | os (e : OsError)
  /-- The template is malformed, so that no run can start. -/
  | template (path : Path) (fault : Fault)
  | settings (e : SettingsError)
  | restore (e : RestoreError)
  | prompt (e : PromptError)
  /-- A snapshot for a run that has not begun or is over. -/
  | unknownRun (id : Text)
  /-- The end of a run that has not begun or is over. -/
  | unknownEnd (id : Text)
  /-- A text that holds stray bytes and was to be written as JSON. -/
  | unwritable
  /-- The user interrupted the program. -/
  | interrupted

namespace Failure

def message : Failure → Text
  | os e => e.message
  | template path fault =>
    Text.concat ["Cannot parse template ", path.text, ": ", fault.message]
  | settings e => e.message
  | restore e => e.message
  | prompt e => e.message
  | unknownRun id => Text.quoted (Text.concat ["Unknown or finalized backup run: ", id])
  | unknownEnd id => id.quoted
  | unwritable => "str is not valid UTF-8: surrogates not allowed"
  | interrupted => []

end Failure

end Stencil
