import Stencil.Json.Basic
import Stencil.Path

/-!
# Settings of a site

What decides which files are pages, where templates and backups lie, and how much is asked. The
defaults hold unless the site's own file says otherwise, and what is given for one run goes above
both. A key that no setting has is an error, and so is a value of the wrong form.
-/

namespace Stencil

structure Settings where
  siteRoot : Path
  templatesDirName : Text
  includePatterns : List Text
  excludePatterns : List Text
  excludeDirs : List Text
  skipDirPrefixes : List Text
  backupDirName : Text
  autoApply : Bool
  backupsEnabled : Bool
  diffContextLines : Nat
deriving DecidableEq, Repr

/-- Why settings are refused. -/
inductive SettingsError where
  | unknownKeys (keys : List Text)
  | notList (key : Text) (value : Json)
  | notStrings (key : Text)
  | notBool (key : Text) (value : Json)
  | notCount (key : Text) (value : Json)
  | notWord (key : Text) (value : Json)
  /-- The settings file is not JSON. -/
  | unreadable (path : Path)
  /-- The settings file is JSON, but not an object. -/
  | notObject (path : Path)

namespace SettingsError

def message : SettingsError → Text
  | unknownKeys keys => Text.concat ["Unknown configuration keys: ", Text.join ", " keys]
  | notList key value => Text.concat [key, " must be a list of strings, got ", value.shown]
  | notStrings key => Text.concat [key, " must contain only strings"]
  | notBool key value => Text.concat [key, " must be true/false, got ", value.shown]
  | notCount key value => Text.concat [key, " must be a non-negative integer, got ", value.shown]
  | notWord key value => Text.concat [key, " must be a non-empty string, got ", value.shown]
  | unreadable path => Text.concat ["Invalid JSON in ", path.text, ": not a JSON document"]
  | notObject path => Text.concat ["Configuration must be a JSON object: ", path.text]

end SettingsError

namespace Settings

def fileName : Text := "dwtsync.json"

def default (siteRoot : Path) : Settings where
  siteRoot
  templatesDirName := "Templates"
  includePatterns := ["**/*.html", "**/*.htm", "**/*.php"]
  excludePatterns := []
  excludeDirs := ["Templates"]
  skipDirPrefixes := [".html-dwt-"]
  backupDirName := ".html-dwt-template-backups"
  autoApply := false
  backupsEnabled := true
  diffContextLines := 3

def templatesDir (s : Settings) : Path := s.siteRoot.child s.templatesDirName

def backupRoot (s : Settings) : Path := s.siteRoot.child s.backupDirName

/-- A path given by the user, seen from the site root. -/
def resolve (s : Settings) (path : Text) : Path := s.siteRoot.child path

/-- A path as the user sees it: from the site root, if it lies below. -/
def display (s : Settings) (path : Path) : Text :=
  match s.siteRoot.below? path with
  | some parts => Path.relativeText parts
  | none => path.text

/-! ## Forms of values -/

def strings? : List Json → Option (List Text)
  | [] => some []
  | .string t :: values => (strings? values).map (t :: ·)
  | _ :: _ => none

def readStrings (key : Text) : Json → Except SettingsError (List Text)
  | .array values =>
    match strings? values with
    | some ts => .ok ts
    | none => .error (.notStrings key)
  | value => .error (.notList key value)

def readBool (key : Text) : Json → Except SettingsError Bool
  | .bool b => .ok b
  | value => .error (.notBool key value)

def readCount (key : Text) : Json → Except SettingsError Nat
  | .int (.ofNat n) => .ok n
  | value => .error (.notCount key value)

def readWord (key : Text) : Json → Except SettingsError Text
  | .string t => if t.isEmpty then .error (.notWord key (.string t)) else .ok t
  | value => .error (.notWord key value)

/-! ## Keys -/

/-- What a key sets. -/
abbrev Setter := Text → Json → Settings → Except SettingsError Settings

/-- The keys that settings have. -/
def setters : List (Text × Setter) :=
  [("templates_dir_name",
      fun key v s => (readWord key v).map fun t => { s with templatesDirName := t }),
    ("include_patterns",
      fun key v s => (readStrings key v).map fun ts => { s with includePatterns := ts }),
    ("exclude_patterns",
      fun key v s => (readStrings key v).map fun ts => { s with excludePatterns := ts }),
    ("exclude_dirs",
      fun key v s => (readStrings key v).map fun ts => { s with excludeDirs := ts }),
    ("skip_dir_prefixes",
      fun key v s => (readStrings key v).map fun ts => { s with skipDirPrefixes := ts }),
    ("backup_dir_name",
      fun key v s => (readWord key v).map fun t => { s with backupDirName := t }),
    ("auto_apply", fun key v s => (readBool key v).map fun b => { s with autoApply := b }),
    ("backups_enabled",
      fun key v s => (readBool key v).map fun b => { s with backupsEnabled := b }),
    ("diff_context_lines",
      fun key v s => (readCount key v).map fun n => { s with diffContextLines := n })]

/-- The settings with one key set. -/
def set (s : Settings) (key : Text) (value : Json) : Except SettingsError Settings :=
  match setters.lookup key with
  | some setter => setter key value s
  | none => .error (.unknownKeys [key])

def setAll (s : Settings) : List (Text × Json) → Except SettingsError Settings
  | [] => .ok s
  | (key, value) :: rest => (s.set key value).bind fun s => s.setAll rest

/-- The keys that no setting has, in order. -/
def unknownKeys (members : List (Text × Json)) : List Text :=
  Text.sort ((members.map (·.1)).filter fun key => (setters.lookup key).isNone)

/-- The settings with the members of an object set, the first one with a bad value being the
error. Unknown keys go before bad values. -/
def apply (s : Settings) (members : List (Text × Json)) : Except SettingsError Settings :=
  let unknown := unknownKeys members
  if unknown.isEmpty then s.setAll members else .error (.unknownKeys unknown)

/-- What is given for one run: null leaves a setting as it is. -/
def override (s : Settings) (members : List (Text × Json)) : Except SettingsError Settings :=
  s.apply (members.filter fun entry =>
    match entry.2 with
    | .null => false
    | _ => true)

end Settings

end Stencil
