import Stencil.Glob
import Stencil.Marker.Scan
import Stencil.Document.Basic
import Stencil.Storage

/-!
# Finding the pages of a template

Candidates are the files under the site root that some include pattern matches and no exclude
pattern does, outside the folders that are skipped. They are visited in a fixed order: the files
of a folder by name, then its subfolders by name. A candidate is a page of a template when its
first binding names the template.
-/

namespace Stencil.Discovery

/-- Folders that are never entered. -/
def skipsDir (s : Settings) (name : Text) : Bool :=
  s.excludeDirs.contains name || s.skipDirPrefixes.any fun head => head.isPrefixOf name

/-- Whether a path, seen from the site root, is that of a candidate. -/
def accepts (s : Settings) (path : Text) : Bool :=
  s.includePatterns.any (Glob.accepts · path) && !s.excludePatterns.any (Glob.accepts · path)

/-- Whether a file comes no later than another one, both as components from the same folder. -/
def visitedBy : (file other : List Text) → Bool
  | [], _ => true
  | _ :: _, [] => false
  | [name], [other] => Text.le name other
  | [_], _ :: _ :: _ => true
  | _ :: _ :: _, [_] => false
  | dir :: file, dir' :: other =>
    if dir = dir' then visitedBy file other else Text.le dir dir'

/-- Candidates among files given as components from the site root, in the order of visit. -/
def choose (s : Settings) (files : List (List Text)) : List (List Text) :=
  (files.filter fun file => accepts s (Text.join "/" file)).mergeSort visitedBy

/-- The path of a file below the site root. -/
def place (s : Settings) (file : List Text) : Path := ⟨s.siteRoot.root, s.siteRoot.parts ++ file⟩

variable {m : Type → Type} [Monad m] [Disk m] [Log m]

def candidates (s : Settings) : m (List Path) := do
  let files ← Disk.walk s.siteRoot (skipsDir s)
  return (choose s files).map (place s)

/-- Whether a text is bound to a template of this name. -/
def isBoundTo (templateName text : Text) : Bool :=
  match Marker.readBinding? text with
  | some reference => templateBasename reference = templateName
  | none => false

/-- The files of a list that are bound to a template of this name. A file that cannot be read is
passed over with a warning. -/
def keepBound (storage : Storage m) (templateName : Text) : List Path → m (List Path)
  | [] => return []
  | path :: paths => do
    match ← storage.readText path with
    | .ok text =>
      let rest ← keepBound storage templateName paths
      return if isBoundTo templateName text then path :: rest else rest
    | .error e =>
      Log.log .warning (Text.concat ["Skipping unreadable file ", path.text, ": ", e.message])
      keepBound storage templateName paths

def instances (s : Settings) (storage : Storage m) (template : Path) : m (List Path) := do
  let found ← keepBound storage template.name (← candidates s)
  Log.log .debug (Text.concat ["Found ", .ofNat found.length, " instance(s) of ", template.name])
  return found

end Stencil.Discovery
