import ScopedLisp.Session

/-!
# ScopedLisp.CommandLine.Console

What the command line writes, in order.  Results and prompts go to the standard
output and reports about the user's program to the error output; what the program
reports about itself, its log and its usage, goes to streams of its own, which are the
same two unless somebody has redirected the first.

A console carries a session along: whatever the session logs is written where it
happens.
-/

namespace ScopedLisp.CommandLine

/-- A piece of output. -/
inductive Output where
  /-- Results and prompts. -/
  | out (text : String)
  /-- Reports about the user's program. -/
  | err (text : String)
  /-- The help, on request. -/
  | help (text : String)
  /-- Log lines and complaints about the arguments. -/
  | log (text : String)
  deriving DecidableEq, Repr

/-- Why the command line itself fails. -/
inductive Fault where
  /-- An error that is none of the language. -/
  | error (error : Error)
  /-- A file that is not in UTF-8. -/
  | undecodable
  /-- A path with a null character, which no file has. -/
  | nullInPath
  deriving DecidableEq, Repr

/-- A session, and the output so far. -/
structure Console where
  session : Session
  output : Array Output
  deriving Inhabited

/-- An activity of the command line. -/
abbrev Activity (α : Type) := EStateM Fault Console α

namespace Activity

/-- Write something. -/
def write (output : Output) : Activity Unit := fun console =>
  .ok () { console with output := console.output.push output }

/-- Write a line of results. -/
def outLine (text : String) : Activity Unit := write (.out (text ++ "\n"))

/-- Write a line of reports. -/
def errLine (text : String) : Activity Unit := write (.err (text ++ "\n"))

/-- Take a step of the session and write what it logs. -/
def step {α : Type} (run : Step α) : Activity α := fun ⟨session, output⟩ =>
  let finish (session : Session) : Console :=
    ⟨{ session with log := #[] }, output ++ session.log.map fun line => .log (line ++ "\n")⟩
  match run session with
  | .ok a session => .ok a (finish session)
  | .error error session => .error (.error error) (finish session)

/-- Take a step whose errors of the language are to be handled; all others end the activity. -/
def attempt {α : Type} (run : Step α) : Activity (Except Error α) := fun console =>
  match step run console with
  | .ok a console => .ok (.ok a) console
  | .error (.error error) console =>
    if error.isOfLanguage then .ok (.error error) console else .error (.error error) console
  | .error fault console => .error fault console

/-- Write a value as a line of results. -/
def outValue (value : Value) : Activity Unit := do outLine (← step (Step.display value))

end Activity

end ScopedLisp.CommandLine
