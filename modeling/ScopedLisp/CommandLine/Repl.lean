import ScopedLisp.CommandLine.Console

/-!
# ScopedLisp.CommandLine.Repl

The interactive loop.  Lines are collected until they can be read as a whole: an open
list or comment waits for the next line, any other failure of reading is reported.
Then the forms are evaluated in order, each value on a line of its own, up to the
first error, which is reported.
-/

namespace ScopedLisp.CommandLine

/-- An interactive loop: its interpreter, and the text that waits to be completed. -/
structure Repl where
  interpreter : Interpreter
  waiting : String
  deriving Inhabited

namespace Repl

/-- Asks for a form. -/
def prompt : String := "lambic> "

/-- Asks for the rest of a form. -/
def continuation : String := "....... "

/-- Begin: ask for the first form. -/
def start (interpreter : Interpreter) : Activity Repl := do
  .write (.out prompt)
  return ⟨interpreter, ""⟩

/-- Evaluate forms and write their values, up to the first error. -/
def evalForms (interpreter : Interpreter) : List Expr → Activity Unit
  | [] => return ()
  | e :: es => do
    match ← Activity.attempt (interpreter.evalForm e.toValue) with
    | .error error => .errLine error.report
    | .ok value =>
      .outValue value
      evalForms interpreter es

/-- Take one line, with its line end. -/
def feed (repl : Repl) (line : String) : Activity Repl := do
  let text := repl.waiting ++ line
  match readAll text with
  | .error error =>
    if error.incomplete then
      .write (.out continuation)
      return { repl with waiting := text }
    .errLine (Error.reading error).report
  | .ok exprs => evalForms repl.interpreter exprs
  .write (.out prompt)
  return { repl with waiting := "" }

/-- Take lines up to the end of the input. -/
def feedAll (repl : Repl) : List String → Activity Repl
  | [] => return repl
  | line :: lines => do (← repl.feed line).feedAll lines

/-- End the last line on the screen; text that still waits is dropped. -/
def finish : Activity Unit := .write (.out "\n")

/-- The whole loop, over the lines of an input. -/
def run (interpreter : Interpreter) (lines : List String) : Activity Unit := do
  let repl ← start interpreter
  let _ ← repl.feedAll lines
  finish

end Repl

end ScopedLisp.CommandLine
