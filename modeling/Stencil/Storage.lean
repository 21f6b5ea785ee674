import Stencil.Failure
import Stencil.Host
import Stencil.Text.Bytes

/-!
# Storages

Pages, templates and backup copies go through a storage, which is the disk unless something is put
in between. A storage with faults refuses some paths, told apart as text.
-/

namespace Stencil

structure Storage (m : Type → Type) where
  read : Path → m (Except OsError Bytes)
  write : Path → Bytes → m (Except OsError Unit)
  copy : (source target : Path) → m (Except OsError Unit)

/-- The paths that cannot be read, written, or copied from. -/
structure Faults where
  read : List Text
  write : List Text
  copy : List Text
deriving DecidableEq, Repr

namespace Storage

variable {m : Type → Type}

/-- The disk itself. -/
def disk [Disk m] : Storage m := ⟨Disk.read, Disk.replace, Disk.copy⟩

def refusal (act : Text) (path : Path) : OsError :=
  .refused (Text.concat ["injected ", act, " failure: ", path.text])

/-- The same storage, but for the paths with faults. -/
def withFaults [Monad m] (storage : Storage m) (faults : Faults) : Storage m where
  read path :=
    if path.text ∈ faults.read then pure (.error (refusal "read" path)) else storage.read path
  write path bytes :=
    if path.text ∈ faults.write then pure (.error (refusal "write" path))
    else storage.write path bytes
  copy source target :=
    if source.text ∈ faults.copy then pure (.error (refusal "copy" source))
    else storage.copy source target

def readText [Monad m] (storage : Storage m) (path : Path) : m (Except OsError Text) := do
  return (← storage.read path).map Text.decode

def writeText (storage : Storage m) (path : Path) (text : Text) : m (Except OsError Unit) :=
  storage.write path text.encode

end Storage

/-- A computation that may fail, over a host that goes on. -/
abbrev Act (m : Type → Type) := ExceptT Failure m

/-- A file operation as part of a computation. -/
def Act.os {m : Type → Type} [Monad m] {α : Type} (operation : m (Except OsError α)) : Act m α :=
  ExceptT.mk do
    match ← operation with
    | .ok a => return .ok a
    | .error e => return .error (.os e)

end Stencil
