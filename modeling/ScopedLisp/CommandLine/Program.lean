import ScopedLisp.CommandLine.Arguments
import ScopedLisp.CommandLine.Files
import ScopedLisp.CommandLine.Repl
import ScopedLisp.Text.Newline

/-!
# ScopedLisp.CommandLine.Program

The command line as a whole: read the arguments, set up log and interpreter, then run
a file or the interactive loop.  Everything it takes from outside is a parameter and
everything it writes is a list, so this module does no input or output.
-/

namespace ScopedLisp.CommandLine

/-- What the command line takes from outside: its arguments, the settings, a way to read files and
the lines of its input. -/
structure Surroundings where
  arguments : List String
  settings : Settings
  readFile : String → Except FileFailure ByteArray
  input : List String

/-- How the command line ends: with a status it returns, by leaving at once, or by a fault. -/
inductive Ending where
  | returned (status : Nat)
  | left (status : Nat)
  | failed (fault : Fault)
  deriving DecidableEq, Repr

/-- The source text in the bytes of a file. -/
def decodeSource (bytes : ByteArray) : Except Fault String :=
  match String.fromUTF8? bytes with
  | some text => .ok (String.ofList (Text.unifyNewlines text.toList))
  | none => .error .undecodable

/-- Run a program file: write the value of its last form and return 0, or report an error and
return 1. -/
def runFile (readFile : String → Except FileFailure ByteArray) (interpreter : Interpreter)
    (program : String) : Activity Nat := do
  let path := plainPath program
  .step (.record (.running path))
  if path.toList.contains '\x00' then throw .nullInPath
  match readFile path with
  | .error failure =>
    .errLine ("lambic: cannot read " ++ path ++ ": " ++ failure.text)
    return 1
  | .ok bytes =>
    match decodeSource bytes with
    | .error fault => throw fault
    | .ok source =>
      match ← Activity.attempt (interpreter.eval source) with
      | .error error =>
        .errLine error.report
        return 1
      | .ok value =>
        .outValue value
        return 0

/-- Write records without level and logger. -/
def writeBare : List LogRecord → Activity Unit
  | [] => return ()
  | record :: records => do
    .write (.log ((← Activity.step (Step.query record.message?)) ++ "\n"))
    writeBare records

/-- Choose the log level: the one given, or the one in the settings.  A report on the settings comes
before there is a log, so it is written bare. -/
def chooseLevel (settings : Settings) (given : Option LogLevel) : Activity Unit := do
  let (level, records) := match given with
    | some level => (level, [])
    | none => settings.readLogLevel
  writeBare records
  .step (modify fun session => { session with threshold := level })

/-- Everything up to the choice between a file and the loop: the interpreter that will do the work. -/
def setUp (settings : Settings) (level : Option LogLevel) : Activity Interpreter := do
  chooseLevel settings level
  .step (Interpreter.create settings)

/-- Run a program, or the loop over the input where there is none; an empty name is none. -/
def runProgram (surroundings : Surroundings) (program : Option String) (level : Option LogLevel) :
    Activity Nat := do
  let interpreter ← setUp surroundings.settings level
  match program.filter (· ≠ "") with
  | some program => runFile surroundings.readFile interpreter program
  | none =>
    Repl.run interpreter surroundings.input
    return 0

/-- A console on which nothing is written yet. -/
def Console.start : Console := ⟨.start, #[]⟩

/-- Run the command line; how it ends, and what it has written. -/
def run (surroundings : Surroundings) : Ending × List Output :=
  match readArguments surroundings.arguments with
  | .help => (.left 0, [.help helpText])
  | .refuse reason => (.left 2, [.log (refusalText reason)])
  | .run program level =>
    match runProgram surroundings program level .start with
    | .ok status console => (.returned status, console.output.toList)
    | .error fault console => (.failed fault, console.output.toList)

end ScopedLisp.CommandLine
