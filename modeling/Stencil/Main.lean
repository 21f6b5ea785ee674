import Stencil.Machine

/-!
# The program

Keeps pages in step with their template, as the command line asks.
-/

namespace Stencil

/-- How the program ends when its time is over. -/
def timeoutStatus : UInt32 := 124

/-- The time a timeout leaves, in whole milliseconds; none when it sets no limit. -/
def Timeout.millis? : Timeout → Option Nat
  | .seconds (.finite negative mantissa exponent) =>
    let (num, den) := Binary64.scaled 2 (1000 * mantissa) exponent
    if mantissa = 0 then none else some (if negative then 0 else num / den)
  | _ => none

def usage (program : Text) : Text := Text.concat ["usage: ", program, " [-h] ...\n"]

def printError (words : List Text) : IO Unit := do
  Machine.writeTo (← IO.getStderr) (Text.concat words)

/-- Runs a command line on the machine. -/
def runInvocation (invocation : Invocation) : IO UInt32 := do
  let millis? := invocation.timeout?.bind Timeout.millis?
  let context : MachineContext :=
    { verbose := invocation.verbose
      tag := .ofNat (← IO.rand 1 4194304)
      deadline? := millis?.map ((← IO.monoMsNow) + ·) }
  match ← ((Commands.execute (m := Machine) invocation).run.run context).toBaseIO with
  | .ok (.ok code) => return .ofNat code.number
  | .ok (.error e) =>
    printError [e.message, "\n"]
    return 1
  | .error (.timeExpired _ _) =>
    let limit := (invocation.timeout?.map Timeout.shown).getD []
    printError ["\nOperation timed out after ", limit, " seconds\n"]
    return timeoutStatus
  | .error e => throw e

end Stencil

open Stencil in
def main (arguments : List String) : IO UInt32 := do
  match Invocation.parse (arguments.map Text.ofString) with
  | .ok invocation => runInvocation invocation
  | .error (.help program) =>
    Machine.writeTo (← IO.getStdout) (usage program)
    return 0
  | .error (.misuse program cause) =>
    printError [usage program, (Halt.misuse program cause).message, "\n"]
    return 2
