import Stencil.CommandLine.Switch
import Stencil.CommandLine.Timeout
import Stencil.Text.Quoted

/-!
# Arguments

Arguments are read in two passes. The first one tells words from switches, each argument by itself:
a double dash makes words of everything behind it, a switch may be shortened as long as it stays
the only one, and negative numbers and anything with a space in it are words. The second pass goes
through them once and hands out words and values. What fits nowhere is left over, and it is an error
only when all else is well.
-/

namespace Stencil

/-- Why arguments are refused. -/
inductive Misuse where
  | ambiguous (argument : Text) (spellings : List Text)
  /-- A value for a switch that takes none. -/
  | unwantedValue (switch : Switch) (value : Text)
  | missingValue (switch : Switch)
  | notNumber (switch : Switch) (value : Text)
  | unknownCommand (word : Text) (commands : List Text)
  | missingWord (name : Text)
  | unrecognized (arguments : List Text)
deriving DecidableEq, Repr

/-- Why there is nothing to do: help was asked for, or the arguments are refused. -/
inductive Halt where
  | help (program : Text)
  | misuse (program : Text) (cause : Misuse)
deriving DecidableEq, Repr

namespace Misuse

def about (name : Text) (words : List Text) : Text :=
  Text.concat ["argument ", name, ": ", Text.concat words]

def message : Misuse → Text
  | ambiguous argument spellings =>
    Text.concat ["ambiguous option: ", argument, " could match ", Text.join ", " spellings]
  | unwantedValue switch value =>
    about switch.label ["ignored explicit argument ", value.quoted]
  | missingValue switch => about switch.label ["expected one argument"]
  | notNumber switch value => about switch.label ["invalid float value: ", value.quoted]
  | unknownCommand word commands =>
    about "command" ["invalid choice: ", word.quoted, " (choose from ",
      Text.join ", " (commands.map Text.quoted), ")"]
  | missingWord name => Text.concat ["the following arguments are required: ", name]
  | unrecognized arguments => Text.concat ["unrecognized arguments: ", Text.join " " arguments]

end Misuse

namespace Halt

/-- The line that says what is wrong. -/
def message : Halt → Text
  | help _ => []
  | misuse program cause => Text.concat [program, ": error: ", cause.message]

/-- The status that the program ends with. -/
def status : Halt → Nat
  | help _ => 0
  | misuse _ _ => 2

end Halt

namespace Arguments

def dash : Glyph := .char '-'

def divider : Text := "--"

/-! ## One argument -/

/-- What an argument is, seen by itself. -/
inductive Reading where
  | word
  | divider
  /-- A switch and what is written behind its spelling: nothing, a value behind an equals sign, or
  more letters. -/
  | switch (switch : Switch) (isLong : Bool) (tail : Text)
  /-- Something that looks like a switch and is none. -/
  | unknown
deriving DecidableEq, Repr

/-- What stands before the first equals sign, and the rest with the sign. -/
def splitAtEquals (argument : Text) : Text × Text :=
  let isOther (g : Glyph) : Bool := g ≠ .char '='
  (argument.takeWhile isOther, argument.dropWhile isOther)

def isLong (argument : Text) : Bool := argument.take 2 = [dash, dash]

/-- A dash and a number in digits, perhaps with a point before the last ones. A line break may
follow. -/
def isNegativeNumber (argument : Text) : Bool :=
  let isDecimal (g : Glyph) : Bool := (Unicode.decimalValue? g.code).isSome
  let kept := if argument.getLast? = some (.char '\n') then argument.dropLast else argument
  match kept with
  | .char '-' :: t =>
    let places := match t.dropWhile isDecimal with
      | .char '.' :: places => places
      | _ => []
    (!t.isEmpty && t.all isDecimal) || (!places.isEmpty && places.all isDecimal)
  | _ => false

/-- What an argument with a dash in front is when no switch begins with it. -/
def readRest (argument : Text) : Reading :=
  if isNegativeNumber argument || argument.contains (.char ' ') then .word else .unknown

/-- What an argument is that begins with a switch or the beginning of one. -/
def readAbbreviated (switches : List Switch) (argument : Text) : Except Misuse Reading :=
  if isLong argument then
    let (head, tail) := splitAtEquals argument
    match (Switch.spelled switches).filter fun entry => head.isPrefixOf entry.1 with
    | [] => .ok (readRest argument)
    | [(_, switch)] => .ok (.switch switch true tail)
    | entries => .error (.ambiguous argument (entries.map (·.1)))
  else
    match Switch.find? switches (argument.take 2) with
    | some switch => .ok (.switch switch false (argument.drop 2))
    | none => .ok (readRest argument)

def read (switches : List Switch) (argument : Text) : Except Misuse Reading :=
  if argument.head? ≠ some dash || argument.length = 1 then .ok .word
  else
    let (head, tail) := splitAtEquals argument
    match Switch.find? switches head with
    | some switch => .ok (.switch switch (isLong argument) tail)
    | none => readAbbreviated switches argument

/-- Every argument with what it is. Behind a divider there are words only. -/
def readAll (switches : List Switch) : List Text → Except Misuse (List (Text × Reading))
  | [] => .ok []
  | argument :: rest => do
    if argument = divider then
      return (argument, .divider) :: rest.map fun word => (word, .word)
    else
      let reading ← read switches argument
      let readings ← readAll switches rest
      return (argument, reading) :: readings

/-! ## Letters written together -/

/-- How an argument with switches in it ends. -/
inductive Ending where
  | complete
  | value (switch : Switch) (value : Text)
  /-- The value is the next argument. -/
  | wanting (switch : Switch)
  /-- Letters that are no switches. -/
  | unknown (letters : Text)
deriving DecidableEq, Repr

/-- The switches without a value in an argument, in order, and how it ends. -/
structure Cluster where
  flags : List Switch
  ending : Ending
deriving DecidableEq, Repr

def afterEquals (g : Glyph) (tail : Text) : Text := if g = .char '=' then tail else g :: tail

/-- The switches in an argument, from one of them with what is written behind it. -/
def unfold (switches : List Switch) (isLong : Bool) :
    Switch → (tail : Text) → Except Misuse Cluster
  | switch, [] => .ok (if switch.takesValue then ⟨[], .wanting switch⟩ else ⟨[switch], .complete⟩)
  | switch, g :: tail =>
    if switch.takesValue then .ok ⟨[], .value switch (afterEquals g tail)⟩
    else if isLong || g = .char '=' || g = dash then
      .error (.unwantedValue switch (afterEquals g tail))
    else match Switch.find? switches [dash, g] with
      | some next => (unfold switches isLong next tail).map fun cluster =>
        { cluster with flags := switch :: cluster.flags }
      | none => .ok ⟨[switch], .unknown (dash :: g :: tail)⟩

/-! ## All of them -/

/-- What the arguments of a level come to. -/
structure Taken where
  given : List (Switch × Text)
  words : Option (List Text)
  leftOver : List Text
deriving DecidableEq, Repr

namespace Taken

def give (t : Taken) (switch : Switch) (value : Text) : Taken :=
  { t with given := t.given ++ [(switch, value)] }

def leave (t : Taken) (argument : Text) : Taken := { t with leftOver := t.leftOver ++ [argument] }

def has (t : Taken) (switch : Switch) : Bool := (t.given.lookup switch).isSome

/-- The last value given for a switch, unless it is empty. -/
def value? (t : Taken) (switch : Switch) : Option Text :=
  (t.given.reverse.lookup switch).filter fun value => !value.isEmpty

end Taken

/-- Takes a switch. Help ends everything at once. -/
def takeSwitch (program : Text) (taken : Taken) (switch : Switch) (value : Text) :
    Except Halt Taken :=
  match switch with
  | .help => .error (.help program)
  | .timeout =>
    if (Timeout.read? value).isSome then .ok (taken.give switch value)
    else .error (.misuse program (.notNumber switch value))
  | _ => .ok (taken.give switch value)

def takeFlags (program : Text) (taken : Taken) (flags : List Switch) : Except Halt Taken :=
  flags.foldlM (fun taken flag => takeSwitch program taken flag []) taken

/-- Goes through arguments that have been read. -/
def takeAll (grammar : Grammar) : Taken → List (Text × Reading) → Except Halt Taken
  | taken, [] => .ok taken
  | taken, (argument, .unknown) :: rest => takeAll grammar (taken.leave argument) rest
  | taken, (_, .switch switch isLong tail) :: rest => do
    match unfold grammar.switches isLong switch tail with
    | .error cause => throw (.misuse grammar.program cause)
    | .ok ⟨flags, .complete⟩ =>
      takeAll grammar (← takeFlags grammar.program taken flags) rest
    | .ok ⟨flags, .unknown letters⟩ =>
      takeAll grammar (← takeFlags grammar.program (taken.leave letters) flags) rest
    | .ok ⟨flags, .value switch value⟩ =>
      let taken ← takeFlags grammar.program taken flags
      takeAll grammar (← takeSwitch grammar.program taken switch value) rest
    | .ok ⟨flags, .wanting switch⟩ =>
      match rest with
      | (value, .word) :: rest =>
        let taken ← takeFlags grammar.program taken flags
        takeAll grammar (← takeSwitch grammar.program taken switch value) rest
      | _ => throw (.misuse grammar.program (.missingValue switch))
  | taken, (word, .word) :: rest =>
    if taken.words.isSome then takeAll grammar (taken.leave word) rest
    else match grammar.words, rest with
      | .none, _ => takeAll grammar (taken.leave word) rest
      | .rest _, _ => .ok { taken with words := some (word :: rest.map (·.1)) }
      | .one _, (_, .divider) :: behind =>
        .ok { taken with
          words := some [word]
          leftOver := taken.leftOver ++ behind.map (·.1) }
      | .one _, _ => takeAll grammar { taken with words := some [word] } rest
  | taken, (mark, .divider) :: rest =>
    let words := rest.map (·.1)
    if taken.words.isSome then .ok { taken with leftOver := taken.leftOver ++ mark :: words }
    else match grammar.words, words with
      | .one _, word :: words =>
        .ok { taken with words := some [word], leftOver := taken.leftOver ++ words }
      | .rest _, _ :: _ => .ok { taken with words := some (mark :: words) }
      | _, _ => .ok { taken with leftOver := taken.leftOver ++ mark :: words }

/-- The arguments of a level, all of them read before any is taken. -/
def take (grammar : Grammar) (arguments : List Text) : Except Halt Taken :=
  match readAll grammar.switches arguments with
  | .error cause => .error (.misuse grammar.program cause)
  | .ok readings => takeAll grammar ⟨[], none, []⟩ readings

end Arguments

end Stencil
