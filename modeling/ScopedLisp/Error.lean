import ScopedLisp.Arity

/-!
# ScopedLisp.Error

Why evaluation fails.  `ShapeError` lists what can be wrong with the shape of a
special form, over the type in which the offending code is kept: the code itself while
shapes are checked, its text in the error that is reported.  `EvalError` adds what can
go wrong with values.  The wording of every error is in this module.
-/

namespace ScopedLisp

/-- What is wrong with the shape of a form; `found` is the code that should look otherwise. -/
inductive ShapeError (α : Type) where
  | emptyApplication
  | ifOperands
  | emptyBegin
  | condClause (found : α)
  | elseNotLast
  | elseWithoutBody
  | lambdaWithoutParts
  | letWithoutParts (form : String)
  | withoutBody (form : String)
  | defineWithoutParts
  | defineWithoutName
  | defineOperands (found : α)
  | notSymbol (what : String) (found : α)
  | parameterList (form : String) (found : α)
  | duplicateParameter (form : String) (found : α)
  | bindingList (form : String) (found : α)
  | binding (form : String) (found : α)
  | duplicateBinding (form : String) (found : α)
  /-- An integer of too many digits where a name should be. -/
  | oversizedLiteral (digits : Nat)
  deriving DecidableEq, Repr

namespace ShapeError

/-- The offending code, where the error shows it. -/
def found? {α : Type} : ShapeError α → Option α
  | .condClause found | .defineOperands found | .notSymbol _ found | .parameterList _ found
  | .duplicateParameter _ found | .bindingList _ found | .binding _ found
  | .duplicateBinding _ found => some found
  | _ => none

/-- The same error with its code in another form. -/
def map {α β : Type} (f : α → β) : ShapeError α → ShapeError β
  | .emptyApplication => .emptyApplication
  | .ifOperands => .ifOperands
  | .emptyBegin => .emptyBegin
  | .condClause found => .condClause (f found)
  | .elseNotLast => .elseNotLast
  | .elseWithoutBody => .elseWithoutBody
  | .lambdaWithoutParts => .lambdaWithoutParts
  | .letWithoutParts form => .letWithoutParts form
  | .withoutBody form => .withoutBody form
  | .defineWithoutParts => .defineWithoutParts
  | .defineWithoutName => .defineWithoutName
  | .defineOperands found => .defineOperands (f found)
  | .notSymbol what found => .notSymbol what (f found)
  | .parameterList form found => .parameterList form (f found)
  | .duplicateParameter form found => .duplicateParameter form (f found)
  | .bindingList form found => .bindingList form (f found)
  | .binding form found => .binding form (f found)
  | .duplicateBinding form found => .duplicateBinding form (f found)
  | .oversizedLiteral digits => .oversizedLiteral digits

/-- Does the error concern a name, a parameter list or a binding, and not the form as a whole? -/
def concernsBinding {α : Type} : ShapeError α → Bool
  | .defineWithoutParts | .defineWithoutName | .defineOperands _ | .notSymbol .. | .parameterList ..
  | .duplicateParameter .. | .bindingList .. | .binding .. | .duplicateBinding .. => true
  | _ => false

end ShapeError

/-- What is said of an integer with too many digits to be read or written; `detail` may say how
many there are. -/
def digitLimitText (detail : String) : String :=
  "Exceeds the limit (4300 digits) for integer string conversion" ++ detail ++
    "; use sys.set_int_max_str_digits() to increase the limit"

/-- Where arithmetic leaves the range of doubles. -/
inductive Overflow where
  | integer
  | quotient
  deriving DecidableEq, Repr

/-- Why evaluation fails. -/
inductive EvalError where
  | unbound (name : String)
  /-- A `letrec` name is used before its value is known. -/
  | unassigned (name : String)
  | shape (error : ShapeError String)
  /-- A value that is no symbol is to be bound; `verb` says by what. -/
  | unbindable (verb shown : String)
  | notEvaluable (shown : String)
  | notApplicable (shown : String)
  | notNumber (primitive shown : String)
  | notInteger (primitive shown : String)
  /-- A closure is applied to the wrong number of arguments. -/
  | parameterCount (name : Option String) (expected got : Nat)
  /-- A primitive is applied to the wrong number of arguments. -/
  | argumentCount (primitive : String) (bound : Arity.Bound) (got : Nat)
  /-- A zero divisor; the integer divisions are named. -/
  | divisionByZero (primitive : Option String)
  | overflow (primitive : String) (cause : Overflow)
  | depthExceeded (limit : Nat)
  /-- An integer literal of too many digits. -/
  | oversizedLiteral (digits : Nat)
  /-- An integer of too many digits in a text that was to be made. -/
  | unwritable
  /-- Code nested too deeply for a text to be made of it. -/
  | tooDeepToWrite
  /-- A value that is no expression is to be written as source text. -/
  | notExpression (shown : String)
  /-- A value that can still be changed is to be searched for. -/
  | changeableKey
  /-- A depth limit that the machine cannot hold. -/
  | limitTooLarge
  /-- A failure of the host, in its own words. -/
  | host (kind message : String)
  deriving DecidableEq, Repr

namespace ShapeError

/-- The error as one of evaluation, with its code as text. -/
def toEvalError : ShapeError String → EvalError
  | .oversizedLiteral digits => .oversizedLiteral digits
  | error => .shape error

/-- What is wrong, in words. -/
def message : ShapeError String → String
  | .emptyApplication => "Cannot evaluate an empty application ()"
  | .ifOperands => "if requires a condition, a then-expression and an optional else-expression"
  | .emptyBegin => "begin requires at least one expression"
  | .condClause found => "cond clause must be a non-empty list, got " ++ found
  | .elseNotLast => "cond: else clause must be last"
  | .elseWithoutBody => "cond: else clause requires a body"
  | .lambdaWithoutParts => "lambda requires a parameter list and a body"
  | .letWithoutParts form => form ++ " requires a binding list and a body"
  | .withoutBody form => form ++ " requires at least one body expression"
  | .defineWithoutParts => "define requires a name and a value"
  | .defineWithoutName => "define: procedure header () has no name"
  | .defineOperands found => "define requires exactly a name and one value, got " ++ found
  | .notSymbol what found => what ++ " must be a symbol, got " ++ found
  | .parameterList form found => form ++ ": parameter list must be a list, got " ++ found
  | .duplicateParameter form found => form ++ ": duplicate parameter in " ++ found
  | .bindingList form found => form ++ ": binding list must be a list, got " ++ found
  | .binding form found => form ++ ": each binding must be (name value), got " ++ found
  | .duplicateBinding form found => form ++ ": duplicate binding name in " ++ found
  | .oversizedLiteral digits =>
    digitLimitText (": value has " ++ toString digits ++ " digits")

end ShapeError

namespace EvalError

/-- What is wrong, in words. -/
def message : EvalError → String
  | .unbound name => "Unbound variable: " ++ name
  | .unassigned name => "Variable " ++ name ++ " used before its letrec binding was assigned"
  | .shape error => error.message
  | .unbindable verb shown => "Cannot " ++ verb ++ " " ++ shown ++ " as a symbol"
  | .notEvaluable shown => "Cannot evaluate " ++ shown ++ ": not an expression"
  | .notApplicable shown => "Cannot apply non-procedure " ++ shown
  | .notNumber primitive shown =>
    "All arguments to " ++ primitive ++ " must be numbers, got " ++ shown
  | .notInteger primitive shown =>
    "All arguments to " ++ primitive ++ " must be integers, got " ++ shown
  | .parameterCount name expected got =>
    name.getD "lambda" ++ " expects " ++ toString expected ++ " argument" ++
      Arity.plural expected ++ ", got " ++ toString got
  | .argumentCount primitive bound got => primitive ++ " " ++ bound.text ++ ", got " ++ toString got
  | .divisionByZero none => "Division by zero"
  | .divisionByZero (some primitive) => primitive ++ ": division by zero"
  | .overflow primitive .integer => primitive ++ ": int too large to convert to float"
  | .overflow primitive .quotient =>
    primitive ++ ": integer division result too large for a float"
  | .depthExceeded limit => "Maximum recursion depth exceeded (limit " ++ toString limit ++ ")"
  | .oversizedLiteral digits => (ShapeError.oversizedLiteral digits).message
  | .unwritable => digitLimitText ""
  | .tooDeepToWrite => "maximum recursion depth exceeded"
  | .notExpression shown => "Not an expression: " ++ shown
  | .changeableKey => "unhashable type: 'list'"
  | .limitTooLarge => "Python int too large to convert to C int"
  | .host _ message => message

/-- The class of an error, as programs and their users see it. -/
def kind : EvalError → String
  | .unbound _ | .unassigned _ => "UnboundVariable"
  | .shape error => if error.concernsBinding then "InvalidBindingForm" else "MalformedForm"
  | .unbindable .. => "InvalidBindingForm"
  | .notEvaluable _ | .notApplicable _ | .notNumber .. | .notInteger .. => "LambicTypeError"
  | .parameterCount .. | .argumentCount .. => "ArityError"
  | .divisionByZero _ => "DivisionByZero"
  | .overflow .. => "NumericOverflow"
  | .depthExceeded _ => "RecursionDepthExceeded"
  | .oversizedLiteral _ | .unwritable => "ValueError"
  | .tooDeepToWrite => "RecursionError"
  | .notExpression _ | .changeableKey => "TypeError"
  | .limitTooLarge => "OverflowError"
  | .host kind _ => kind

/-- Is this an error of the language, which its command line reports, and not one of the machine
or of the host around it? -/
def isOfLanguage : EvalError → Bool
  | .oversizedLiteral _ | .unwritable | .tooDeepToWrite | .notExpression _ | .changeableKey
  | .limitTooLarge | .host .. => false
  | _ => true

end EvalError

end ScopedLisp
