import Stencil.Text.Quoted
import Stencil.Path

/-!
# Failures of the file system
-/

namespace Stencil

/-- What the operating system reports. -/
inductive Errno where
  | noEntry
  | busy
  | exists
  | notDirectory
  | isDirectory
  | notEmpty
deriving DecidableEq, Repr

namespace Errno

def number : Errno → Nat
  | noEntry => 2
  | busy => 16
  | .exists => 17
  | notDirectory => 20
  | isDirectory => 21
  | notEmpty => 39

def words : Errno → Text
  | noEntry => "No such file or directory"
  | busy => "Device or resource busy"
  | .exists => "File exists"
  | notDirectory => "Not a directory"
  | isDirectory => "Is a directory"
  | notEmpty => "Directory not empty"

end Errno

/-- Why a file operation failed. -/
inductive OsError where
  /-- The operating system refused; renaming has a second path. -/
  | system (errno : Errno) (path : Text) (target? : Option Text)
  /-- A copy whose source is no file. -/
  | noSource (path : Path)
  /-- A copy of a file onto itself. The target is shown as text when it was found by looking into
  a directory. -/
  | sameFile (source target : Path) (inside : Bool)
  /-- A storage that refuses for reasons of its own. -/
  | refused (reason : Text)
deriving DecidableEq, Repr

namespace OsError

def shownPath (p : Path) : Text := Text.concat ["PosixPath(", p.text.quoted, ")"]

def message : OsError → Text
  | system errno path target? =>
    let target := match target? with
      | some target => Text.concat [" -> ", target.quoted]
      | none => []
    Text.concat ["[Errno ", .ofNat errno.number, "] ", errno.words, ": ", path.quoted, target]
  | noSource path => Text.concat ["No such file: ", path.text]
  | sameFile source target inside =>
    Text.concat [shownPath source, " and ",
      if inside then target.text.quoted else shownPath target, " are the same file"]
  | refused reason => reason

end OsError

end Stencil
