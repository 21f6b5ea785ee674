import Stencil.CommandLine.Arguments

/-!
# Invocations

What a command line asks for. The program's own switches come first, then the name of a command,
and everything behind it belongs to the command.
-/

namespace Stencil

/-- What is asked of a template for its pages. -/
structure UpdateRequest where
  template : Text
  /-- The one page to update. -/
  only? : Option Text
  autoApply : Bool
  noBackup : Bool
deriving DecidableEq, Repr

inductive Command where
  | updateAll (request : UpdateRequest)
  | sync (request : UpdateRequest)
  | findInstances (template : Text)
  | showRegions (file : Text)
  | createPage (template : Text) (output? : Option Text) (force : Bool)
  | restoreBackup (yes : Bool)
deriving DecidableEq, Repr

inductive CommandName where
  | updateAll
  | sync
  | findInstances
  | showRegions
  | createPage
  | restoreBackup
deriving DecidableEq, Repr

namespace CommandName

def all : List CommandName :=
  [updateAll, sync, findInstances, showRegions, createPage, restoreBackup]

def word : CommandName → Text
  | updateAll => "update-all"
  | sync => "sync"
  | findInstances => "find-instances"
  | showRegions => "show-regions"
  | createPage => "create-page"
  | restoreBackup => "restore-backup"

def ofWord? (t : Text) : Option CommandName := all.find? fun name => name.word = t

theorem ofWord?_word (name : CommandName) : ofWord? name.word = some name := by
  cases name <;> decide +kernel

def switches : CommandName → List Switch
  | updateAll | sync => [.help, .only, .autoApply, .noBackup]
  | findInstances | showRegions => [.help]
  | createPage => [.help, .output, .force]
  | restoreBackup => [.help, .yes]

def words : CommandName → Words
  | showRegions => .one "file"
  | restoreBackup => .none
  | _ => .one "template"

end CommandName

def Command.name : Command → CommandName
  | .updateAll _ => .updateAll
  | .sync _ => .sync
  | .findInstances _ => .findInstances
  | .showRegions _ => .showRegions
  | .createPage _ _ _ => .createPage
  | .restoreBackup _ => .restoreBackup

structure Invocation where
  /-- The site root, if it is not the working directory. -/
  root? : Option Text
  verbose : Bool
  timeout? : Option Timeout
  command : Command
deriving DecidableEq, Repr

namespace Invocation

def programName : Text := "dwtsync"

def grammar : Grammar := ⟨programName, [.help, .cwd, .verbose, .timeout], .rest "command"⟩

def commandGrammar (name : CommandName) : Grammar :=
  ⟨Text.concat [programName, " ", name.word], name.switches, name.words⟩

/-- The words of a level, which must be there if any are wanted. -/
def wordsOf (grammar : Grammar) (taken : Arguments.Taken) : Except Halt (List Text) :=
  match taken.words, grammar.words with
  | some words, _ => .ok words
  | none, .none => .ok []
  | none, .one name | none, .rest name => .error (.misuse grammar.program (.missingWord name))

def updateRequest (template : Text) (taken : Arguments.Taken) : UpdateRequest where
  template
  only? := taken.value? .only
  autoApply := taken.has .autoApply
  noBackup := taken.has .noBackup

/-- The command that a name, a word and switches make. -/
def commandOf (name : CommandName) (word : Text) (taken : Arguments.Taken) : Command :=
  match name with
  | .updateAll => .updateAll (updateRequest word taken)
  | .sync => .sync (updateRequest word taken)
  | .findInstances => .findInstances word
  | .showRegions => .showRegions word
  | .createPage => .createPage word (taken.value? .output) (taken.has .force)
  | .restoreBackup => .restoreBackup (taken.has .yes)

/-- A command with its arguments, and those that are left over. -/
def readCommand (word : Text) (arguments : List Text) : Except Halt (Command × List Text) :=
  match CommandName.ofWord? word with
  | none =>
    .error (.misuse programName (.unknownCommand word (CommandName.all.map CommandName.word)))
  | some name => do
    let grammar := commandGrammar name
    let taken ← Arguments.take grammar arguments
    let words ← wordsOf grammar taken
    return (commandOf name (words.head?.getD []) taken, taken.leftOver)

/-- Reads a command line. -/
def parse (arguments : List Text) : Except Halt Invocation := do
  let taken ← Arguments.take grammar arguments
  let words ← wordsOf grammar taken
  let (command, leftOver) ← readCommand (words.head?.getD []) words.tail
  let leftOver := taken.leftOver ++ leftOver
  if leftOver.isEmpty then
    return { root? := taken.value? .cwd
             verbose := taken.has .verbose
             timeout? := (taken.value? .timeout).bind Timeout.read?
             command }
  else throw (.misuse programName (.unrecognized leftOver))

end Invocation

end Stencil
