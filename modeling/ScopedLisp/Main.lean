import ScopedLisp.CommandLine.Program

/-!
# ScopedLisp.Main

The command line on a real machine: arguments, settings, files and the standard
streams.  What is read is handed to `ScopedLisp.CommandLine.Program` and what that
writes is passed on, line by line in the interactive loop.
-/

namespace ScopedLisp.CommandLine

/-- Pass a piece of output on. -/
def Output.emit : Output → IO Unit
  | .out text | .help text => do
    let stream ← IO.getStdout
    stream.putStr text
    stream.flush
  | .err text | .log text => do (← IO.getStderr).putStr text

/-- Pass on what has been written since the last time. -/
def Console.emit (console : Console) : IO Console := do
  for output in console.output do output.emit
  return { console with output := #[] }

/-- The words for a fault that stops the program. -/
def Fault.text : Fault → String
  | .error cause => cause.report
  | .undecodable => "the program is not in UTF-8"
  | .nullInPath => "the program's name holds a null character"

/-- Carry out an activity, pass on its output and go on with its result. -/
def Activity.carryOut {α : Type} (activity : Activity α) (console : Console)
    (next : α → Console → IO UInt32) : IO UInt32 := do
  match activity console with
  | .ok a console => next a (← console.emit)
  | .error fault console =>
    let _ ← console.emit
    (← IO.getStderr).putStrLn fault.text
    return 1

/-- The number by which the system says that a component of a path is no directory. -/
def notDirectoryCode : UInt32 := 20

/-- The failure that the system reports for a file. -/
def FileFailure.ofSystem : IO.Error → FileFailure
  | .noFileOrDirectory .. => .notFound
  | .inappropriateType _ code _ => if code = notDirectoryCode then .notDirectory else .isDirectory
  | error => .other (toString error)

/-- The content of a file on disk. -/
def readDisk (path : String) : IO (Except FileFailure ByteArray) :=
  try return .ok (← IO.FS.readBinFile path)
  catch error => return .error (.ofSystem error)

/-- Feed the loop with the lines of the standard input. -/
partial def Repl.drive (repl : Repl) (console : Console) : IO UInt32 := do
  let line ← (← IO.getStdin).getLine
  if line.isEmpty then Repl.finish.carryOut console fun _ _ => return 0
  else (repl.feed line).carryOut console Repl.drive

/-- The settings in the environment variables. -/
def readEnvironment : IO Settings :=
  return ⟨← IO.getEnv Settings.depthLimitVariable, ← IO.getEnv Settings.logLevelVariable⟩

end ScopedLisp.CommandLine

open ScopedLisp ScopedLisp.CommandLine in
/-- Run the command line; the result is the exit status. -/
def main (arguments : List String) : IO UInt32 := do
  match readArguments arguments with
  | .help =>
    Output.emit (.help helpText)
    return 0
  | .refuse reason =>
    Output.emit (.log (refusalText reason))
    return 2
  | .run program level =>
    (setUp (← readEnvironment) level).carryOut .start fun interpreter console => do
      match program.filter (· ≠ "") with
      | none => (Repl.start interpreter).carryOut console Repl.drive
      | some program =>
        let content ← readDisk (plainPath program)
        (runFile (fun _ => content) interpreter program).carryOut console fun status _ =>
          return status.toUInt32
