import ScopedLisp.Value.Printer

/-!
# ScopedLisp.Log

What the interpreter and its command line report about their own work.  A record says
what happened; its level, the logger it belongs to and its wording follow from that.
A record is put into words only where it is written, and that may fail: it may hold
code of which no text can be made.
-/

namespace ScopedLisp

/-- How serious a record is. -/
inductive LogLevel where
  | debug
  | info
  | warning
  | error
  | critical
  deriving DecidableEq, Repr, Inhabited

namespace LogLevel

/-- Every level, from the least serious one on. -/
def all : List LogLevel := [.debug, .info, .warning, .error, .critical]

/-- The rank of a level. -/
def rank : LogLevel → Nat
  | .debug => 0
  | .info => 1
  | .warning => 2
  | .error => 3
  | .critical => 4

/-- The name of a level. -/
def name : LogLevel → String
  | .debug => "DEBUG"
  | .info => "INFO"
  | .warning => "WARNING"
  | .error => "ERROR"
  | .critical => "CRITICAL"

/-- The level of a name. -/
def ofName? (name : String) : Option LogLevel := all.find? (·.name == name)

/-- A level is found again by its name. -/
theorem ofName?_name (level : LogLevel) : ofName? level.name = some level := by
  cases level <;> rfl

end LogLevel

/-- Something worth reporting. -/
inductive LogRecord where
  /-- A form is about to be evaluated. -/
  | evaluating (code : Value)
  /-- Evaluation of a form ended with an error of the language. -/
  | failed (kind message : String)
  /-- The depth limit is about to be raised. -/
  | raisingLimit (limit : Nat)
  /-- A setting is not used, for a reason. -/
  | ignored (setting text reason : String)
  /-- A file is about to be run. -/
  | running (path : String)

namespace LogRecord

/-- How serious a record is. -/
def level : LogRecord → LogLevel
  | .evaluating _ | .failed .. | .raisingLimit _ => .debug
  | .running _ => .info
  | .ignored .. => .warning

/-- The part of the program that a record comes from. -/
def logger : LogRecord → String
  | .evaluating _ | .failed .. | .raisingLimit _ => "lambic.interpreter"
  | .ignored .. => "lambic.config"
  | .running _ => "lambic.cmdline"

/-- A record in words; the heap tells about the procedures that code may hold. -/
def message? (heap : Heap) : LogRecord → Except EvalError String
  | .evaluating code => (code.inspect? heap).map ("Evaluating " ++ ·)
  | .failed kind message => .ok ("Evaluation failed: " ++ kind ++ ": " ++ message)
  | .raisingLimit limit => .ok ("Raising host recursion limit to " ++ toString limit)
  | .ignored setting text reason =>
    .ok ("Ignoring " ++ setting ++ "=" ++ Text.quoted text ++ ": " ++ reason)
  | .running path => .ok ("Evaluating " ++ path)

/-- A record as a line of a log. -/
def line? (heap : Heap) (record : LogRecord) : Except EvalError String :=
  (record.message? heap).map (record.level.name ++ ":" ++ record.logger ++ ":" ++ ·)

/-- The nested calls that it takes to put a record into words: one for each level of lists. -/
def levels : LogRecord → Nat
  | .evaluating code => code.height
  | _ => 0

end LogRecord

end ScopedLisp
