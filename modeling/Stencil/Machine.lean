import Std.Time.DateTime
import Stencil.CommandLine.Commands
import Stencil.Disk.Tree
import Stencil.Moment

/-!
# The machine

The host that the command line runs on: the files of the machine, its terminal and its clock.
-/

namespace Stencil

structure MachineContext where
  verbose : Bool
  /-- What ends the names of files that are about to replace others. -/
  tag : Text
  /-- The clock's reading, in milliseconds, after which nothing more is done. -/
  deadline? : Option Nat

/-- A program run on the machine. -/
abbrev Machine := ReaderT MachineContext IO

namespace Machine

/-- Goes no further once the time is over. -/
def checkTime : Machine Unit := do
  match (← read).deadline? with
  | some deadline =>
    if deadline ≤ (← IO.monoMsNow) then throw (.timeExpired 0 "time is over")
  | none => return ()

def fileName (path : Path) : String := Text.toString path.text

/-- A failure of the operating system as a failure of this library. -/
def osError (path : Path) (target? : Option Text) (e : IO.Error) : OsError :=
  let other (code : UInt32) (details : String) : OsError :=
    .refused (Text.concat ["[Errno ", .ofNat code.toNat, "] ", details, ": ", path.text.quoted])
  match e with
  | .noFileOrDirectory _ _ _ => .system .noEntry path.text target?
  | .alreadyExists _ _ _ => .system .exists path.text target?
  | .resourceBusy _ _ => .system .busy path.text target?
  | .inappropriateType _ 21 _ => .system .isDirectory path.text target?
  | .inappropriateType _ 20 _ => .system .notDirectory path.text target?
  | .unsatisfiedConstraints 39 _ => .system .notEmpty path.text target?
  | .permissionDenied _ code details => other code details
  | e => .refused e.toString

/-- A file operation, with its failure as an answer. -/
def trying {α : Type} (path : Path) (act : IO α) : Machine (Except OsError α) := do
  checkTime
  match ← act.toBaseIO with
  | .ok a => return .ok a
  | .error e => return .error (osError path none e)

/-- What is at a path, links followed. -/
def kind? (path : Path) : Machine (Option IO.FS.FileType) := do
  match ← (System.mkFilePath [fileName path]).metadata.toBaseIO with
  | .ok found => return some found.type
  | .error _ => return none

def isDir (path : Path) : Machine Bool := do
  match ← kind? path with
  | some .dir => return true
  | _ => return false

/-- The path without links and double dots: where nothing is, as far as there is something. -/
partial def resolve (path : Path) : Machine Path := do
  if path.parts.isEmpty then
    if path.isAbsolute then return path
    else return Path.ofText (← IO.currentDir).toString
  else
    match ← (IO.FS.realPath (fileName path)).toBaseIO with
    | .ok real =>
      if (← kind? path).isSome then return Path.ofText real.toString else below
    | .error _ => below
where
  below : Machine Path := do
    let above ← resolve path.parent
    return if path.name = Path.parentName then above.parent
      else { above with parts := above.parts ++ [path.name] }

def isLink (entry : IO.FS.DirEntry) : Machine Bool := do
  match ← entry.path.symlinkMetadata.toBaseIO with
  | .ok seen => return seen.type == .symlink
  | .error _ => return false

/-- The files below a directory; links to directories are not followed. -/
partial def walk (dir : Path) (above : List Text) (skip : Text → Bool) :
    Machine (List (List Text)) := do
  match ← (System.mkFilePath [fileName dir]).readDir.toBaseIO with
  | .error _ => return []
  | .ok entries =>
    let mut found := []
    for entry in entries do
      let name := Text.ofString entry.fileName
      if ← isDir (dir.child name) then
        unless skip name do
          unless ← isLink entry do
            found := found ++ (← walk (dir.child name) (above ++ [name]) skip)
      else found := found ++ [above ++ [name]]
    return found

def makeDirs (path : Path) : Machine (Except OsError Unit) := do
  if ← isDir path then return .ok () else trying path (IO.FS.createDirAll (fileName path))

/-- Writes beside a file and renames. -/
def replace (path : Path) (bytes : Bytes) : Machine (Except OsError Unit) := do
  checkTime
  match ← makeDirs path.parent with
  | .error e => return .error e
  | .ok () =>
    let beside := path.withName (Tree.besideName (← read).tag path.name)
    match ← (IO.FS.writeBinFile (fileName beside) ⟨bytes.toArray⟩).toBaseIO with
    | .error e => return .error (osError beside none e)
    | .ok () =>
      match ← (IO.FS.rename (fileName beside) (fileName path)).toBaseIO with
      | .ok () => return .ok ()
      | .error e =>
        discard (IO.FS.removeFile (fileName beside)).toBaseIO
        return .error (osError beside (some path.text) e)

def readFile (path : Path) : Machine (Except OsError Bytes) := do
  return (← trying path (IO.FS.readBinFile (fileName path))).map (·.toList)

def copy (source target : Path) : Machine (Except OsError Unit) := do
  match ← kind? source with
  | some .file =>
    match ← makeDirs target.parent with
    | .error e => return .error e
    | .ok () =>
      let inside ← isDir target
      let target := if inside then target.child source.name else target
      if (← resolve source) = (← resolve target) then
        return .error (.sameFile source target inside)
      else
        match ← readFile source with
        | .error e => return .error e
        | .ok bytes => trying target (IO.FS.writeBinFile (fileName target) ⟨bytes.toArray⟩)
  | _ => return .error (.noSource source)

instance : Disk Machine where
  isFile path := do
    match ← kind? path with
    | some .file => return true
    | _ => return false
  isDir := isDir
  isThere path := return (← kind? path).isSome
  resolve := resolve
  walk path skip := walk path [] skip
  read := readFile
  replace := replace
  copy := copy
  removeTree path := trying path (IO.FS.removeDirAll (fileName path))

def writeTo (stream : IO.FS.Stream) (text : Text) : IO Unit := do
  stream.write ⟨text.encode.toArray⟩
  stream.flush

def print (stream : IO IO.FS.Stream) (text : Text) : Machine Unit := do
  checkTime
  writeTo (← stream) text

def now : IO Moment := do
  let nanos := (← Std.Time.Timestamp.now).toNanosecondsSinceUnixEpoch.val.toNat
  return ⟨nanos / 1000000000, nanos % 1000000000 / 1000⟩

instance : Log Machine where
  log level text := do
    if level.isShown (← read).verbose then
      print IO.getStderr (logLine (← now).logged level text)

/-- Asks on the terminal until an answer is judged well or the input ends. -/
partial def ask {α : Type} (prompt complaint : Text) (judge : Text → Option α) :
    Machine (Option α) := do
  print IO.getStdout prompt
  let line ← (← IO.getStdin).getLine
  if line.isEmpty then return none
  let answer := Text.ofString line
  let answer := if answer.getLast? = some (.char '\n') then answer.dropLast else answer
  match judge answer with
  | some a => return some a
  | none =>
    print IO.getStdout complaint
    ask prompt complaint judge

instance : Console Machine where
  print text := print IO.getStdout text
  printError text := print IO.getStderr text
  ask := ask
  stopRequested := return false

instance : Clock Machine where
  stamp := do
    let moment ← now
    return ⟨moment.runName (← IO.rand 0 0xffffffff), moment.iso⟩

end Machine

end Stencil
