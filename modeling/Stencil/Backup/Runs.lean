import Stencil.Json.Read
import Stencil.Json.Write
import Stencil.Sha1
import Stencil.Storage

/-!
# Backups of runs

Before a run overwrites a file it copies it into a directory of its own under the backup root, and
writes its manifest anew, there and as the last manifest at the root. So a run that dies on its way
leaves a manifest that names exactly the files it may have overwritten. When a run ends, the
directory of the run whose manifest it replaced is removed: one generation of undo is kept.
-/

namespace Stencil

/-- The runs that have begun and not ended, with the directory each of them makes obsolete, once
that is known. -/
structure Backups where
  root : Path
  site : Path
  runs : List (Text × Manifest)
  replaced : List (Text × Option Path)
deriving DecidableEq, Repr

/-- A computation on the runs under way. What it has changed of them stays when it fails. -/
abbrev BackupAct (m : Type → Type) := ExceptT Failure (StateT Backups m)

namespace Backups

variable {m : Type → Type} [Monad m]

def ofSettings (s : Settings) : Backups := ⟨s.backupRoot, s.siteRoot, [], []⟩

def lastFileName : Text := "last_backup.json"

/-- The manifest of the most recent run. -/
def lastPath (root : Path) : Path := root.child lastFileName

def runDir (root : Path) (run : Text) : Path := root.child run

/-- The manifest that a run keeps in its own directory. -/
def runManifestPath (root : Path) (run : Text) : Path :=
  (runDir root run).child (Text.concat ["manifest_", run, ".json"])

def setRun (run : Text) (manifest : Manifest) (b : Backups) : Backups :=
  { b with runs := (run, manifest) :: b.runs.filter fun entry => entry.1 ≠ run }

def dropRun (run : Text) (b : Backups) : Backups :=
  { b with runs := b.runs.filter fun entry => entry.1 ≠ run }

def dropReplaced (run : Text) (b : Backups) : Backups :=
  { b with replaced := b.replaced.filter fun entry => entry.1 ≠ run }

/-- A computation that leaves the runs alone. -/
def perform {α : Type} (act : Act m α) : BackupAct m α := ExceptT.mk (StateT.lift act.run)

/-! ## Reading back -/

section Read

variable [Disk m]

/-- The manifest of the most recent run, if there is one. -/
def lastManifest (root : Path) : Act m (Option Manifest) := do
  let path := lastPath root
  if ← (Disk.isFile path : m Bool) then
    let bytes ← Act.os (Disk.read path)
    match Json.read? .file bytes with
    | none => throw (.restore (.unreadable path))
    | some value =>
      match Manifest.ofJson value with
      | .ok manifest => return some manifest
      | .error reason => throw (.restore (.malformed reason))
  else return none

/-- Copies every entry back, going on past those that fail, and returns how many were copied and
which were not and why. -/
def restoreAll [Log m] (storage : Storage m) : List BackupEntry → m (Nat × List (Text × Text))
  | [] => return (0, [])
  | entry :: entries => do
    match ← storage.copy (Path.ofText entry.backup) (Path.ofText entry.file) with
    | .ok () =>
      let (succeeded, failed) ← restoreAll storage entries
      return (succeeded + 1, failed)
    | .error e =>
      Log.log .error (Text.concat ["Restore failed for ", entry.file, ": ", e.message])
      let (succeeded, failed) ← restoreAll storage entries
      return (succeeded, (entry.file, e.message) :: failed)

/-- Undoes the most recent run and returns the number of files restored. Files that could be
restored stay so even if others could not. -/
def restore [Log m] (root : Path) (storage : Storage m) : Act m Nat := do
  match ← lastManifest root with
  | none => throw (.restore (.noManifest (lastPath root)))
  | some manifest =>
    let (succeeded, failed) ← (restoreAll storage manifest.entries : m _)
    if failed.isEmpty then
      (Log.log .info (Text.concat ["Restored ", .ofNat succeeded, " file(s) from run ",
        manifest.runId]) : m Unit)
      return succeeded
    else throw (.restore (.partly succeeded failed))

end Read

/-! ## Keeping -/

variable [Disk m] [Log m]

def log (level : Level) (words : List Text) : BackupAct m Unit :=
  perform (ExceptT.lift (Log.log level (Text.concat words)))

def begin [Clock m] (templateName : Text) : BackupAct m Text := do
  let stamp ← perform (ExceptT.lift (Clock.stamp : m Stamp))
  let root := (← get).root
  modify (setRun stamp.run
    ⟨templateName, stamp.run, stamp.time, (runDir root stamp.run).text, []⟩)
  log .debug ["Started backup run ", stamp.run, " for ", templateName]
  return stamp.run

def pending (run : Text) : BackupAct m Manifest := do
  match (← get).runs.lookup run with
  | some manifest => return manifest
  | none => throw (.unknownRun run)

def externalDirName : Text := "_external"

/-- Where a file, given by its resolved path, is copied to: at the same place as under the site
root, or for a file elsewhere in a directory of its own. -/
def location (root resolvedSite : Path) (run : Text) (resolved : Path) : Path :=
  let dir := runDir root run
  match resolvedSite.below? resolved with
  | some parts => ⟨dir.root, dir.parts ++ parts⟩
  | none =>
    ((dir.child externalDirName).child ((Sha1.hexDigest resolved.text.encode).take 12)).child
      resolved.name

/-- Writes a manifest in the directory of its run, and then as the last one. -/
def persist (root : Path) (manifest : Manifest) : Act m Unit := do
  match Json.writeBytes? manifest.toJson with
  | none => throw .unwritable
  | some bytes =>
    Act.os (Disk.replace (runManifestPath root manifest.runId) bytes)
    Act.os (Disk.replace (lastPath root) bytes)

/-- The directory of the run that the last manifest names, if that is another run and the directory
is there. A manifest that makes no sense names none. -/
def previousDir (root : Path) (run : Text) : Act m (Option Path) := ExceptT.mk do
  match ← (lastManifest root).run with
  | .error (.restore e) =>
    Log.log .warning (Text.concat ["Ignoring unreadable previous manifest: ", e.message])
    return .ok none
  | .error e => return .error e
  | .ok none => return .ok none
  | .ok (some previous) =>
    if previous.runId = run then return .ok none
    else
      let dir := runDir root previous.runId
      return .ok (if ← Disk.isDir dir then some dir else none)

/-- Finds out, once per run, which directory the run makes obsolete. It must happen before the run
writes its manifest over the last one. -/
def noteReplaced (run : Text) : BackupAct m Unit := do
  let b ← get
  if (b.replaced.lookup run).isNone then
    let dir ← perform (previousDir b.root run)
    modify fun b => { b with replaced := (run, dir) :: b.replaced }

/-- Copies a file as it is now, before it is overwritten. A second snapshot of the same file keeps
the first copy. -/
def snapshot (storage : Storage m) (run : Text) (path : Path) : BackupAct m BackupEntry := do
  let manifest ← pending run
  let resolved ← perform (ExceptT.lift (Disk.resolve path : m Path))
  match manifest.entries.find? fun entry => entry.file = resolved.text with
  | some entry => return entry
  | none =>
    let b ← get
    let site ← perform (ExceptT.lift (Disk.resolve b.site : m Path))
    let target := location b.root site run resolved
    perform (Act.os (storage.copy path target))
    let entry : BackupEntry := ⟨resolved.text, target.text⟩
    let manifest := { manifest with entries := manifest.entries ++ [entry] }
    modify (setRun run manifest)
    log .debug ["Backed up ", entry.file, " -> ", entry.backup]
    noteReplaced run
    perform (persist b.root manifest)
    return entry

/-- Removes the directory that a run made obsolete; that it cannot be removed is no failure. -/
def prune (dir : Path) : BackupAct m Unit := do
  match ← perform (ExceptT.lift (Disk.removeTree dir : m _)) with
  | .error e => log .warning ["Could not prune old backup run ", dir.text, ": ", e.message]
  | .ok () => log .debug ["Pruned previous backup run ", dir.name]

/-- Ends a run: its manifest is written a last time, and the directory it made obsolete removed. -/
def finalize (run : Text) : BackupAct m Path := do
  let b ← get
  match b.runs.lookup run with
  | none => throw (.unknownEnd run)
  | some manifest =>
    modify (dropRun run)
    perform (persist b.root manifest)
    let stale := (b.replaced.lookup run).join
    modify (dropReplaced run)
    match stale with
    | some dir => prune dir
    | none => pure ()
    log .info ["Backup manifest written: ", .ofNat manifest.entries.length, " file(s) in ",
      manifest.backupDir]
    return lastPath b.root

/-- Ends a run that backed nothing up, so that the manifest before it stays. -/
def discard (run : Text) : BackupAct m Unit := modify fun b => dropReplaced run (dropRun run b)

end Backups

end Stencil
