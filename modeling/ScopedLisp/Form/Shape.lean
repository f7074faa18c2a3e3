import ScopedLisp.Error
import ScopedLisp.Form.Keyword
import ScopedLisp.Literal

/-!
# ScopedLisp.Form.Shape

The shapes of special forms: what their operands must look like, found out before
anything is evaluated.  Each function takes operands apart into the parts that
evaluation needs, or says what is wrong with the first part that is wrong.

```
(if test then else?)                 (define name value)
(lambda (name ...) form form ...)    (define (name name ...) form form ...)
(let ((name value) ...) form form ...)         also let* and letrec
(begin form form ...)
```

Several forms where one is wanted are wrapped in `begin`.  Only lists are taken apart,
and of atoms only those that are no literals are names.
-/

namespace ScopedLisp.Shape

/-- The result of a check: the parts, or an error that holds the offending code. -/
abbrev Checked (α : Type) := Except (ShapeError Value) α

/-! ## Parts that forms share -/

/-- The name that an expression is; `what` says which name was wanted. -/
def nameOf (what : String) (expr : Value) : Checked String :=
  match expr with
  | .atom text =>
    match Literal.ofText text with
    | .name => .ok text
    | .oversized digits => .error (.oversizedLiteral digits)
    | _ => .error (.notSymbol what expr)
  | _ => .error (.notSymbol what expr)

/-- The names that a row of expressions is. -/
def namesOf (what : String) : List Value → Checked (List String)
  | [] => .ok []
  | e :: es => do
    let name ← nameOf what e
    let names ← namesOf what es
    return name :: names

/-- The distinct parameters of a procedure. -/
def formals (form : String) (expr : Value) : Checked (List String) :=
  match expr with
  | .list items => do
    let names ← namesOf (form ++ " parameter") items
    if names.Nodup then return names else throw (.duplicateParameter form expr)
  | _ => .error (.parameterList form expr)

/-- One binding, a name with its value. -/
def bindingOf (form : String) (expr : Value) : Checked (String × Value) :=
  match expr with
  | .list [name, value] => return (← nameOf (form ++ " binding name") name, value)
  | _ => .error (.binding form expr)

/-- A row of bindings. -/
def bindingsOf (form : String) : List Value → Checked (List (String × Value))
  | [] => .ok []
  | e :: es => do
    let binding ← bindingOf form e
    let bindings ← bindingsOf form es
    return binding :: bindings

/-- The bindings of a form, with distinct names unless `duplicates` are allowed. -/
def bindings (form : String) (duplicates : Bool) (expr : Value) :
    Checked (List (String × Value)) :=
  match expr with
  | .list items => do
    let found ← bindingsOf form items
    if duplicates || (found.map (·.1)).Nodup then return found
    else throw (.duplicateBinding form expr)
  | _ => .error (.bindingList form expr)

/-- One expression for one or more: the only one, or a `begin` around them. -/
def body (form : String) : List Value → Checked Value
  | [] => .error (.withoutBody form)
  | [e] => .ok e
  | es => .ok (.list (.atom "begin" :: es))

/-! ## The forms -/

/-- A test, an expression to take where it holds and, perhaps, one to take where it does not. -/
def conditional : List Value → Checked (Value × Value × Option Value)
  | [test, positive] => .ok (test, positive, none)
  | [test, positive, negative] => .ok (test, positive, some negative)
  | _ => .error .ifOperands

/-- The parameters and the body of a procedure. -/
def lambda : List Value → Checked (List String × Value)
  | [] => .error .lambdaWithoutParts
  | parameters :: forms => return (← formals "lambda" parameters, ← body "lambda" forms)

/-- What a definition defines. -/
inductive Definition where
  /-- A name for a value. -/
  | value (name : String) (expr : Value)
  /-- A procedure, in the form of a call to it. -/
  | procedure (name : String) (formals : List String) (body : Value)

/-- A definition. -/
def definition (operands : List Value) : Checked Definition :=
  match operands with
  | [] => .error .defineWithoutParts
  | .list [] :: _ => .error .defineWithoutName
  | .list (head :: parameters) :: forms => do
    let name ← nameOf "define procedure name" head
    return .procedure name (← formals "define" (.list parameters)) (← body ("define " ++ name) forms)
  | [target, expr] => return .value (← nameOf "define name" target) expr
  | _ => .error (.defineOperands (.list operands))

/-- The bindings and the body of a `let`, `let*` or `letrec`. -/
def letParts (form : String) (duplicates : Bool) :
    List Value → Checked (List (String × Value) × Value)
  | [] => .error (.letWithoutParts form)
  | spec :: forms => do
    let expr ← body form forms
    return (← bindings form duplicates spec, expr)

/-- Is an expression written as a `lambda`? -/
def isLambda : Value → Bool
  | .list (.atom text :: _) => text == Keyword.name .lambdaForm
  | _ => false

/-- Is an expression the word `else`? -/
def isElse : Value → Bool
  | .atom text => text == "else"
  | _ => false

end ScopedLisp.Shape
