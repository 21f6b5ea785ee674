import Stencil.Json.Basic

/-!
# Manifests

A manifest names every file that a run may have overwritten together with the copy that was made
of it before. It is written as a JSON object and read back leniently: members that are not text
are taken as text, and the time and the directory may be missing.
-/

namespace Stencil

/-- A file and its copy. -/
structure BackupEntry where
  file : Text
  backup : Text
deriving DecidableEq, Repr

structure Manifest where
  templateName : Text
  runId : Text
  createdAt : Text
  backupDir : Text
  entries : List BackupEntry
deriving DecidableEq, Repr

/-- Why a JSON value is no manifest. -/
inductive ManifestError where
  | notObject
  | missing (key : Text)
  /-- Something that should hold entries, or be one, does not. -/
  | misshapen
deriving DecidableEq, Repr

def ManifestError.message : ManifestError → Text
  | .notObject => "Invalid backup manifest payload"
  | .missing key => Text.concat ["Invalid backup manifest payload: ", key.quoted]
  | .misshapen => "Invalid backup manifest payload: entries must be a list of objects"

namespace BackupEntry

def toJson (entry : BackupEntry) : Json :=
  .object [("original_path", .string entry.file), ("backup_path", .string entry.backup)]

end BackupEntry

namespace Manifest

def version : Text := "1.0"

def toJson (manifest : Manifest) : Json :=
  .object [("manifest_version", .string version), ("template_name", .string manifest.templateName),
    ("run_id", .string manifest.runId), ("created_at", .string manifest.createdAt),
    ("backup_dir", .string manifest.backupDir),
    ("entries", .array (manifest.entries.map BackupEntry.toJson))]

/-- The text of a member that must be there. -/
def required (members : List (Text × Json)) (key : Text) : Except ManifestError Text :=
  match members.lookup key with
  | some value => .ok value.asText
  | none => .error (.missing key)

/-- The text of a member that may be missing. -/
def optional (members : List (Text × Json)) (key : Text) : Text :=
  ((members.lookup key).map Json.asText).getD []

def readEntry : Json → Except ManifestError BackupEntry
  | .object members => do
    let file ← required members "original_path"
    let backup ← required members "backup_path"
    return ⟨file, backup⟩
  | _ => .error .misshapen

/-- The entries of a manifest. An empty text and an empty object hold none, too. -/
def readEntries : Option Json → Except ManifestError (List BackupEntry)
  | none | some (.string []) | some (.object []) => .ok []
  | some (.array items) => items.mapM readEntry
  | some _ => .error .misshapen

/-- The manifest that a JSON value is. Entries are read first. -/
def ofJson : Json → Except ManifestError Manifest
  | .object members => do
    let entries ← readEntries (members.lookup ("entries" : Text))
    let templateName ← required members "template_name"
    let runId ← required members "run_id"
    return { templateName, runId, entries
             createdAt := optional members "created_at"
             backupDir := optional members "backup_dir" }
  | _ => .error .notObject

end Manifest

end Stencil
