import Stencil.Json.Read
import Stencil.Storage

/-!
# The settings file

The settings of a site lie in a file at its root, if it has one.
-/

namespace Stencil.Settings

variable {m : Type → Type} [Monad m] [Disk m]

/-- The members of the settings file; none when there is no file. -/
def readFile (siteRoot : Path) : Act m (List (Text × Json)) := do
  let path := siteRoot.child fileName
  if ← (Disk.isFile path : m Bool) then
    let bytes ← Act.os (Disk.read path)
    match Json.read? .file bytes with
    | some (.object members) => return members
    | some _ => throw (.settings (.notObject path))
    | none => throw (.settings (.unreadable path))
  else return []

/-- The settings of a site with those given for one run. -/
def load (siteRoot : Path) (given : List (Text × Json)) : Act m Settings := do
  let members ← readFile siteRoot
  match (Settings.default siteRoot).apply members >>= fun s => s.override given with
  | .ok settings => return settings
  | .error e => throw (.settings e)

end Stencil.Settings
