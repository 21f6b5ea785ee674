import Stencil.CommandLine.Invocation
import Stencil.Discovery
import Stencil.FrontEnd.Terminal
import Stencil.NewPage
import Stencil.Run.Basic
import Stencil.SettingsFile

/-!
# Commands

What the commands do, what they print, and how the program ends. Every command that comes to an end
leaves a line about it in the record. A file operation that fails on the way ends the program with
an error; anything else that goes wrong there is the caller's.
-/

namespace Stencil.Commands

open Terminal (printLine printErrorLine)

variable {m : Type → Type} [Monad m] [Disk m] [Log m] [Console m]

/-- Ends a command. -/
def complete (name : CommandName) (code : ExitCode) : m ExitCode := do
  Log.log .info (Text.concat ["[dwtsync] Process completed (cli:", name.word,
    ") with error code -> ", .ofNat code.number])
  return code

/-- Says why a command ends with this code. -/
def refuse (name : CommandName) (code : ExitCode) (words : List Text) : m ExitCode := do
  printErrorLine words
  complete name code

/-- Goes on with the path of a template, if there is a file. -/
def withTemplate (name : CommandName) (settings : Settings) (template : Text)
    (act : Path → Act m ExitCode) : Act m ExitCode := do
  let path := settings.resolve template
  if ← (Disk.isFile path : m Bool) then act path
  else (refuse name .error ["Template file not found: ", path.text] : m _)

def printNumbered (number : Nat) : List Text → m Unit
  | [] => return ()
  | line :: lines => do
    printLine ["  ", .ofNat number, ". ", line]
    printNumbered (number + 1) lines

/-! ## Updating -/

def printFailures : List Outcome → m Unit
  | [] => return ()
  | outcome :: outcomes => do
    printErrorLine ["  ! ", outcome.path, ": ", outcome.message]
    printFailures outcomes

/-- How the program ends after a run. Asked for one page only, it tells when that was skipped. -/
def codeAfter (summary : RunSummary) (single : Bool) : ExitCode :=
  if summary.exitCode = .success ∧ single ∧ summary.count .skippedByUser = 1 then .skipped
  else summary.exitCode

/-- A run over pages that have been found, and what is printed about it. -/
def runOver [Clock m] (name : CommandName) (settings : Settings) (template : Path)
    (paths : List Path) (single : Bool) : Act m ExitCode := ExceptT.mk do
  let (result, _) ← Run.run ⟨settings, Terminal.frontEnd, .disk⟩ template paths
    (.initial settings)
  match result with
  | .error (.template path fault) =>
    return .ok (← refuse name .error ["Error: ", (Failure.template path fault).message])
  | .error e => return .error e
  | .ok summary =>
    printLine ["\n", summary.render]
    printFailures summary.failed
    match summary.manifest? with
    | some path => printLine ["Backup manifest: ", path.text]
    | none => pure ()
    return .ok (← complete name (codeAfter summary single))

/-- Whether a page is among those found. -/
def isAmong (page : Path) (found : List Path) : m Bool := do
  let page ← Disk.resolve page
  return (← found.mapM Disk.resolve).contains page

def announce (settings : Settings) (template : Path) : m Unit := do
  printLine ["Updating files using template: ", template.name]
  printLine ["Site root: ", settings.siteRoot.text]
  printLine ["Auto-apply: ", if settings.autoApply then "Yes" else "No", "\n"]

def nothingFound (name : CommandName) : m ExitCode := do
  printLine ["No instances found."]
  complete name .success

/-- Updates the pages of a template, or only the one that is named. A page that is not among those
found is left alone. -/
def update [Clock m] (name : CommandName) (settings : Settings) (request : UpdateRequest) :
    Act m ExitCode :=
  withTemplate name settings request.template fun template => do
    (announce settings template : m Unit)
    let found ← (Discovery.instances settings .disk template : m _)
    match request.only? with
    | some only =>
      let page := settings.resolve only
      if ← (isAmong page found : m Bool) then runOver name settings template [page] true
      else (refuse name .safetySkip
        [only, " is not an instance of ", template.name, "; not updated."] : m _)
    | none =>
      if found.isEmpty then (nothingFound name : m _)
      else runOver name settings template found false

/-! ## Looking -/

def findInstances (settings : Settings) (template : Text) : Act m ExitCode :=
  withTemplate .findInstances settings template fun template => ExceptT.lift do
    printLine ["Finding instances of template: ", template.name, "\n"]
    let found ← Discovery.instances settings .disk template
    if found.isEmpty then nothingFound .findInstances
    else
      printLine ["Found ", .ofNat found.length, " instance(s):\n"]
      printNumbered 1 (found.map settings.display)
      complete .findInstances .success

/-- A line per region, with the line of the file it begins on. -/
def regionLines (segments : List Segment) : List Text :=
  segments.filterMap fun
    | .literal _ => none
    | .region name _ span =>
      some (Text.concat [name, " (line ", .ofNat (span.start.line + 1), ")"])

def printRegions (file : Path) (bound? : Option Text) (segments : List Segment) : m ExitCode := do
  printLine ["Editable regions in: ", file.name, "\n"]
  match bound? with
  | some reference => printLine ["Bound to template: ", reference, "\n"]
  | none => pure ()
  let regions := regionLines segments
  if regions.isEmpty then printLine ["No editable regions found."]
  else
    printLine ["Found ", .ofNat regions.length, " editable region(s):\n"]
    printNumbered 1 regions
  complete .showRegions .success

/-- The regions of a text: of a page if it is bound to a template, else of a template. -/
def showRegionsOf (file : Path) (text : Text) : m ExitCode := do
  let tokens := Marker.scan text
  let isBound := tokens.any fun token => token.kind = .binding
  let malformed (fault : Fault) : m ExitCode :=
    refuse .showRegions .error ["Malformed markers in ", file.name, ": ", fault.message]
  if isBound then
    match Page.build text file.text with
    | .ok page => printRegions file (some page.templateRef) page.segments
    | .error fault => malformed fault
  else if tokens.any fun token => token.kind = .regionBegin .template then
    match Template.build text file.text with
    | .ok template => printRegions file none template.segments
    | .error fault => malformed fault
  else
    printLine ["This file does not appear to be a Dreamweaver template or instance."]
    complete .showRegions .success

def showRegions (settings : Settings) (file : Text) : Act m ExitCode := do
  let path := settings.resolve file
  if ← (Disk.isFile path : m Bool) then
    let text ← Act.os (Storage.disk.readText path)
    (showRegionsOf path text : m _)
  else (refuse .showRegions .error ["File not found: ", path.text] : m _)

/-! ## Making a page -/

/-- Reads the template and writes the page. -/
def writePage (settings : Settings) (template output : Path) (shown : Text) : Act m ExitCode :=
  ExceptT.mk do
    match ← (Run.loadTemplate .disk template).run with
    | .error (.template path fault) =>
      return .ok (← refuse .createPage .error
        ["Error: ", (Failure.template path fault).message])
    | .error e => return .error e
    | .ok document =>
      let reference := NewPage.reference (← Disk.resolve settings.siteRoot)
        (← Disk.resolve template) template.name
      match ← Storage.disk.writeText output (NewPage.create document reference) with
      | .error e => return .error (.os e)
      | .ok () =>
        printLine ["Created ", shown, " from ", template.name]
        return .ok (← complete .createPage .success)

def createPage (settings : Settings) (template : Text) (output? : Option Text) (force : Bool) :
    Act m ExitCode :=
  withTemplate .createPage settings template fun template =>
    match output? with
    | none => (refuse .createPage .error ["Output path is required. Use --output <path>"] : m _)
    | some shown => do
      let output := settings.resolve shown
      if (← (Disk.isThere output : m Bool)) && !force then
        (refuse .createPage .safetySkip
          [output.text, " already exists; use --force to overwrite."] : m _)
      else writePage settings template output shown

/-! ## Undoing -/

def printManifest (manifest : Manifest) : m Unit := do
  printLine ["\nLast backup information:"]
  printLine ["  Template: ", manifest.templateName]
  printLine ["  Files: ", .ofNat manifest.entries.length]
  printLine ["  Location: ", manifest.backupDir]

/-- Restores the last backup, once that is agreed. -/
def restoreAgreed (settings : Settings) : Act m ExitCode := ExceptT.mk do
  match ← (Backups.restore settings.backupRoot .disk).run with
  | .ok restored =>
    printLine ["\nBackup restored successfully (", .ofNat restored, " file(s))."]
    return .ok (← complete .restoreBackup .success)
  | .error (.restore (.noManifest _)) =>
    printLine ["No backup information found."]
    return .ok (← complete .restoreBackup .success)
  | .error (.restore (.partly succeeded failed)) =>
    return .ok (← refuse .restoreBackup .error
      ["\n", (RestoreError.partly succeeded failed).message])
  | .error e => return .error e

def restoreQuestion (manifest : Manifest) : Text :=
  Text.concat ["Restore ", .ofNat manifest.entries.length, " file(s) from backup?"]

/-- Whether the user wants the restoration, asked unless that is known. -/
def agrees (manifest : Manifest) (yes : Bool) : m Bool :=
  if yes then return true else Terminal.askYesNo (restoreQuestion manifest)

def restoreBackup (settings : Settings) (yes : Bool) : Act m ExitCode := ExceptT.mk do
  match ← (Backups.lastManifest settings.backupRoot).run with
  | .error (.restore e) =>
    return .ok (← refuse .restoreBackup .error ["Error: ", e.message])
  | .error e => return .error e
  | .ok none =>
    printLine ["No backup information found."]
    printLine ["Backups are created automatically before template updates."]
    return .ok (← complete .restoreBackup .success)
  | .ok (some manifest) =>
    printManifest manifest
    if ← agrees manifest yes then (restoreAgreed settings).run
    else
      printLine ["\nRestore cancelled."]
      return .ok (← complete .restoreBackup .cancelled)

/-! ## The program -/

/-- What a command sets above the site's own settings. -/
def given : Command → List (Text × Json)
  | .updateAll request | .sync request =>
    (if request.autoApply then [(("auto_apply" : Text), .bool true)] else []) ++
      (if request.noBackup then [(("backups_enabled" : Text), .bool false)] else [])
  | _ => []

def run [Clock m] (settings : Settings) : Command → Act m ExitCode
  | .updateAll request => update .updateAll settings request
  | .sync request => update .sync settings request
  | .findInstances template => findInstances settings template
  | .showRegions file => showRegions settings file
  | .createPage template output? force => createPage settings template output? force
  | .restoreBackup yes => restoreBackup settings yes

/-- Carries out what a command line asks for. -/
def execute [Clock m] (invocation : Invocation) : Act m ExitCode := ExceptT.mk do
  let shownRoot := invocation.root?.getD []
  let root ← Disk.resolve (Path.ofText shownRoot)
  if !(← Disk.isDir root) then
    printErrorLine ["Error: Cannot change to directory ", shownRoot]
    return .ok .error
  else
    match ← (Settings.load root (given invocation.command)).run with
    | .error (.settings e) =>
      printErrorLine ["Error: ", e.message]
      return .ok .error
    | .error e => return .error e
    | .ok settings =>
      if !(← Disk.isDir settings.templatesDir) then
        printErrorLine ["Error: ", settings.templatesDirName, " directory not found."]
        printErrorLine ["Make sure you are running this from a site root directory,"]
        printErrorLine ["or use --cwd to specify the site root path."]
        return .ok .error
      else
        match ← (run settings invocation.command).run with
        | .error (.os e) =>
          Log.log .error e.message
          return .ok .error
        | result => return result

end Stencil.Commands
