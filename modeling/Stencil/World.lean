import Stencil.Disk.Tree
import Stencil.FrontEnd.Script
import Stencil.FrontEnd.Terminal
import Stencil.Host
import Stencil.Moment

/-!
# The world held in memory

A host that is a value: a tree of files, lines waiting to be typed, and a list of everything that
happened. Every program of this library runs in it as a function from world to world, and what the
disk is at any moment is what replaying the list up to then makes of it.
-/

namespace Stencil

/-- What a program does to its host. File operations are listed when they are tried, whether or not
they succeed. -/
inductive Event where
  | read (path : Path)
  | replace (path : Path) (bytes : Bytes)
  | copy (source target : Path)
  | removeTree (path : Path)
  | log (level : Level) (text : Text)
  | out (text : Text)
  | err (text : Text)
  | asked (prompt : Text)
  /-- A change was proposed to a script. -/
  | proposed (summary : DiffSummary) (decision : Decision)
  /-- A script was asked whether to stop. -/
  | polled (stop : Bool)
deriving DecidableEq, Repr

structure World where
  tree : Tree
  /-- The directory that relative paths start from. -/
  here : Loc
  /-- What ends the names of files that are about to replace others. -/
  tag : Text
  /-- How many runs have been named. -/
  runs : Nat
  /-- The lines that have not been typed yet. -/
  input : List Text
  script : Script
  interrupts : Terminal.Interrupts
  trace : List Event
deriving DecidableEq, Repr

namespace Event

/-- What an event makes of a disk. -/
def replay (here : Loc) (tag : Text) (tree : Tree) : Event → Tree
  | replace path bytes => (tree.replace here tag path bytes).1
  | copy source target => (tree.copy here source target).1
  | removeTree path => (tree.removeTree here path).1
  | _ => tree

/-- What an event shows on the screen. Prompts stand there, too. -/
def onScreen : Event → Text
  | out text => text
  | asked prompt => prompt
  | _ => []

/-- What an event writes to the error stream, with the record kept at one time. -/
def onErrors (time : Text) (verbose : Bool) : Event → Text
  | err text => text
  | log level text => if level.isShown verbose then logLine time level text else []
  | _ => []

def screen (trace : List Event) : Text := trace.flatMap onScreen

def errors (time : Text) (verbose : Bool) (trace : List Event) : Text :=
  trace.flatMap (onErrors time verbose)

def prompts (trace : List Event) : List Text :=
  trace.filterMap fun
    | asked prompt => some prompt
    | _ => none

end Event

namespace World

def make (tree : Tree) (here : Loc) (tag : Text) : World :=
  ⟨tree, here, tag, 0, [], .make [] .skip none, .idle, []⟩

/-- The disk after the events of a trace. -/
def replay (here : Loc) (tag : Text) (tree : Tree) (trace : List Event) : Tree :=
  trace.foldl (Event.replay here tag) tree

/-- It is always the same moment here: the beginning of 2025. -/
def now : Moment := ⟨1735689600, 0⟩

/-- The name of a run, told from all others by its number. -/
def runName (number : Nat) : Text := now.runName number

/-- Asking among the lines that are left: the answer, the lines behind it, and what happened. -/
def askAmong {α : Type} (prompt complaint : Text) (judge : Text → Option α) :
    List Text → Option α × List Text × List Event
  | [] => (none, [], [.asked prompt])
  | line :: lines =>
    match judge line with
    | some answer => (some answer, lines, [.asked prompt])
    | none =>
      let (answer?, rest, events) := askAmong prompt complaint judge lines
      (answer?, rest, .asked prompt :: .out complaint :: events)

end World

/-- A program run in a world. -/
abbrev Sim := StateM World

namespace Sim

def note (event : Event) : Sim Unit := modify fun w => { w with trace := w.trace ++ [event] }

/-- An operation that changes the disk. -/
def onTree (event : Event) (change : World → Tree × Except OsError Unit) :
    Sim (Except OsError Unit) := do
  note event
  let w ← get
  let (tree, result) := change w
  set { w with tree }
  return result

instance : Disk Sim where
  isFile path := return (← get).tree.isFile (← get).here path
  isDir path := return (← get).tree.isDir (← get).here path
  isThere path := return (← get).tree.isThere (← get).here path
  resolve path := return Tree.resolve (← get).here path
  walk path skip := return (← get).tree.walk (← get).here path skip
  read path := do
    note (.read path)
    return (← get).tree.read (← get).here path
  replace path bytes :=
    onTree (.replace path bytes) fun w => w.tree.replace w.here w.tag path bytes
  copy source target := onTree (.copy source target) fun w => w.tree.copy w.here source target
  removeTree path := onTree (.removeTree path) fun w => w.tree.removeTree w.here path

instance : Log Sim where
  log level text := note (.log level text)

instance : Console Sim where
  print text := note (.out text)
  printError text := note (.err text)
  ask prompt complaint judge := do
    let w ← get
    let (answer?, input, events) := World.askAmong prompt complaint judge w.input
    set { w with input, trace := w.trace ++ events }
    return answer?
  stopRequested := return (← get).interrupts.stopRequested

instance : Clock Sim where
  stamp := do
    let w ← get
    let runs := w.runs + 1
    set { w with runs }
    return ⟨World.runName runs, World.now.iso⟩

/-- The script of the world as a front end. -/
def scripted : FrontEnd Sim where
  confirm summary := do
    let (decision, script) := (← get).script.confirm summary
    modify fun w => { w with script }
    note (.proposed summary decision)
    return .ok decision
  notify severity message := modify fun w => { w with script := w.script.notify severity message }
  progress message := modify fun w => { w with script := w.script.report message }
  isCancelled := do
    let (stop, script) := (← get).script.isCancelled
    modify fun w => { w with script }
    note (.polled stop)
    return stop

end Sim

end Stencil
