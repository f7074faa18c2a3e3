import ScopedLisp.Evaluation.Call
import ScopedLisp.Log
import ScopedLisp.Settings
import ScopedLisp.Token.Stream

/-!
# ScopedLisp.Session

Sessions: a heap that outlives single evaluations, the limit on nested calls, and a
log.  Interpreters work in a session, each with a root frame of its own; definitions
made by one form are seen by the next, also when a form between them fails.

Source text is read and evaluated form by form: what stands before a syntax error has
been evaluated when the error is met.
-/

namespace ScopedLisp

/-- Why a step of a session fails: the text cannot be read, or not be evaluated. -/
inductive Error where
  | reading (error : ParseError)
  | evaluation (error : EvalError)
  deriving DecidableEq, Repr

namespace Error

/-- The class of an error, as programs and their users see it. -/
def kind : Error → String
  | .reading .emptyAtom => "ValueError"
  | .reading _ => "ParseError"
  | .evaluation error => error.kind

/-- What is wrong, in words. -/
def message : Error → String
  | .reading error => error.message
  | .evaluation error => error.message

/-- Is this an error of the language, which its command line reports? -/
def isOfLanguage : Error → Bool
  | .reading .emptyAtom => false
  | .reading _ => true
  | .evaluation error => error.isOfLanguage

/-- Class and words of an error. -/
def report (error : Error) : String := error.kind ++ ": " ++ error.message

end Error

/-- A heap, the greatest number of nested calls, the least serious level that is logged, the lines
of the log so far, and how many objects of the host have been told apart. -/
structure Session where
  heap : Heap
  depthLimit : Nat
  threshold : LogLevel
  log : Array String
  objects : Nat
  deriving Inhabited

/-- A step of a session. -/
abbrev Step (α : Type) := EStateM Error Session α

namespace Session

/-- The number of nested calls that are always allowed. -/
def leastDepthLimit : Nat := 1000

/-- The greatest limit on nested calls that the machine can hold. -/
def greatestDepthLimit : Nat := power 2 31 - 1

/-- A session in which nothing has happened. -/
def start : Session := ⟨.empty, leastDepthLimit, Settings.defaultLogLevel, #[], 0⟩

end Session

namespace Step

/-! ## Looking at the heap and changing it -/

/-- Look at the heap. -/
def view {α : Type} (f : Heap → α) : Step α := fun session => .ok (f session.heap) session

/-- Look at the heap for something that may be missing. -/
def query {α : Type} (f : Heap → Except EvalError α) : Step α := fun session =>
  match f session.heap with
  | .ok a => .ok a session
  | .error error => .error (.evaluation error) session

/-- Change the heap. -/
def change {α : Type} (f : Heap → α × Heap) : Step α := fun ⟨heap, limit, threshold, log, objects⟩ =>
  let (a, heap) := f heap
  .ok a ⟨heap, limit, threshold, log, objects⟩

/-- A new object of the host. -/
def newObject (shown : String) : Step Value := fun session =>
  .ok (.object session.objects shown) { session with objects := session.objects + 1 }

/-- A value as an item of a list of the host.  Such lists know their items by identity.  That makes
no difference to most values, but a double that is not a number equals nothing, not even
itself, and still is the same item. -/
def holdItem (item : Value) : Step Value :=
  match item with
  | .number (.float x) => if x.isNaN then newObject (Number.float x).text else return item
  | item => return item

/-! ## Texts -/

/-- Make a text, for which so many nested calls are needed. -/
def write (levels : Nat) (text : Heap → Except EvalError String) : Step String := fun session =>
  if levels < session.depthLimit then query text session
  else .error (.evaluation .tooDeepToWrite) session

/-- A value as a program's user sees it. -/
def display (v : Value) : Step String := write v.height v.display?

/-- The diagnostic form of a value. -/
def inspect (v : Value) : Step String := write v.height v.inspect?

/-- A name or a text as it stands, the source text of a closure, or a diagnostic form. -/
def plain (v : Value) : Step String := do write (← view v.plainLevels) v.plain?

/-- Code as source text. -/
def source (code : Value) : Step String := write code.sourceLevels code.source?

/-- A closure as source text. -/
def closureSource (c : Closure) : Step String := write c.body.sourceLevels c.source?

/-- Log something, if it is serious enough.  What is not logged is not put into words.

A record may fail to be written: it may be nested too deeply, or hold an integer of too many digits.
Whoever keeps the log may hand such a failure on or drop it with its record; here it is handed on.
The code of a program never holds an integer, only the text of one, so for an integer this
matters where a host evaluates code of its own making and logs it. -/
def record (record : LogRecord) : Step Unit := do
  if (← get).threshold.rank ≤ record.level.rank then
    let line ← write record.levels record.line?
    modify fun session => { session with log := session.log.push line }

/-- Log several things in order. -/
def recordAll : List LogRecord → Step Unit
  | [] => return ()
  | r :: rs => do
    record r
    recordAll rs

/-! ## Evaluation -/

/-- Evaluate code in a frame.  Running out of depth becomes an error here, and the heap stays as
it was when that happened. -/
def evaluate (code : Value) (env : FrameId) : Step Value :=
  fun ⟨heap, limit, threshold, log, objects⟩ =>
    match Call.perform limit (.eval code env) heap with
    | .ok value heap => .ok value ⟨heap, limit, threshold, log, objects⟩
    | .error (.error error) heap =>
      .error (.evaluation error) ⟨heap, limit, threshold, log, objects⟩
    | .error .outOfDepth heap =>
      .error (.evaluation (.depthExceeded limit)) ⟨heap, limit, threshold, log, objects⟩

/-- Raise the limit on nested calls to what is asked for; it is never lowered. -/
def raiseDepthLimit (settings : Settings) : Step Unit := do
  let (requested, records) := settings.readDepthLimit
  recordAll records
  match requested with
  | none => return ()
  | some limit =>
    if limit ≤ (← get).depthLimit then return ()
    else
      record (.raisingLimit limit)
      if Session.greatestDepthLimit < limit then throw (.evaluation .limitTooLarge)
      else modify fun session => { session with depthLimit := limit }

end Step

/-- An interpreter of a session: the root frame that its forms are evaluated in. -/
structure Interpreter where
  root : FrameId
  deriving DecidableEq, Repr, Inhabited

namespace Interpreter

/-- A new interpreter with a standard root frame. -/
def create (settings : Settings) : Step Interpreter := do
  Step.raiseDepthLimit settings
  return ⟨← Step.change Heap.standardFrame⟩

/-- Evaluate one form, and report it; a failure is reported too if it is one of the language.  A form
that cannot be put into words where that is asked for is not evaluated. -/
def evalForm (interpreter : Interpreter) (code : Value) : Step Value := do
  Step.record (.evaluating code)
  tryCatch (Step.evaluate code interpreter.root) fun error => do
    if error.isOfLanguage then Step.record (.failed error.kind error.message)
    throw error

/-- Evaluate the forms of a stream one by one; `last` is the value if there are no more. -/
def evalStream (interpreter : Interpreter) (stream : TokenStream) (last : Value) : Step Value :=
  match _h : stream.readExpr with
  | (.error error, _) => throw (.reading error)
  | (.ok none, _) => return last
  | (.ok (some e), rest) => do
    let value ← interpreter.evalForm e.toValue
    evalStream interpreter rest value
termination_by stream.pending.length
decreasing_by exact TokenStream.length_readExpr _h

/-- Evaluate every form of a source text; the value is that of the last one, `nil` if there is
none. -/
def eval (interpreter : Interpreter) (source : String) : Step Value :=
  interpreter.evalStream (lex source) .nil

/-- Evaluate every form of a source text for its effect alone. -/
def evalPrelude (interpreter : Interpreter) (source : String) : Step Unit := do
  let _ ← interpreter.eval source

/-- Give a name a value in the root frame. -/
def define (interpreter : Interpreter) (name : String) (value : Value) : Step Unit :=
  Step.change fun heap => ((), heap.write interpreter.root name value)

/-- Give a name to a procedure of the host, in the root frame. -/
def defineHost (interpreter : Interpreter) (name : String) (respond : List Value → HostRequest) :
    Step Unit :=
  Step.change fun heap =>
    let (id, heap) := heap.newProcedure (.host name respond)
    ((), heap.write interpreter.root name (.procedure id))

/-- The value of a name as seen from the root frame. -/
def lookup (interpreter : Interpreter) (name : String) : Step Value :=
  Step.query (·.lookup interpreter.root name)

end Interpreter

/-- The value of a source text in a session of its own. -/
def run (source : String) : Step Value := do (← Interpreter.create .none).eval source

end ScopedLisp
