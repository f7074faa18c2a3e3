import ScopedLisp.Evaluation

/-!
# ScopedLisp.Evaluation.Call

The evaluator.  Its unit is the *call*: evaluating code in a frame, running a special
form, applying a procedure.  One step of a call may make further calls, each one
nesting level deeper, and `perform` runs a call with a bounded number of levels:

| call                       | levels                                           |
|----------------------------|--------------------------------------------------|
| evaluating code            | 1                                                |
| running a special form     | 1                                                |
| operands, values of a `let`| 1 more than their own evaluation                 |
| applying a closure         | 1, and 1 more than the evaluation of its body    |

Code that an error of shape quotes takes levels too, three for each level of lists
(`Evaluation.shaped`).  All else that a call does is part of its own level: reading a
literal, finding a name, checking the shape of a form, making a frame and writing to it,
the checks and the work of a primitive, and showing a value that is refused, lists of the
host inside it included.  None of this evaluates code or applies a procedure, so it takes
no more calls than the forms and values at hand are large, and all of them have returned
before the next call begins; and no form and no primitive reacts to a want of depth.  To
count them would move the place where the limit is met, and nothing else.

The step itself is not recursive: it is given the function that performs nested calls.
What holds of every step, provided it holds of the nested calls, therefore holds of
`perform` by one induction over the levels.
-/

namespace ScopedLisp

open Evaluation

/-- Something to be done on a nesting level of its own. -/
inductive Call where
  /-- Evaluate code in a frame. -/
  | eval (code : Value) (env : FrameId)
  /-- Run a special form on its unevaluated operands. -/
  | form (keyword : Keyword) (operands : List Value) (env : FrameId)
  /-- Apply a procedure to values, on behalf of code in a frame. -/
  | apply (procedure : Value) (args : List Value) (env : FrameId)
  /-- Do another call one level further in. -/
  | nested (call : Call)

/-- How nested calls are performed. -/
abbrev Caller := Call → Evaluation Value

/-! ## Special forms -/

namespace Form

/-- Evaluate the test and then one of the branches; `nil` where the branch is missing. -/
def runIf (remaining : Nat) (call : Caller) (operands : List Value) (env : FrameId) :
    Evaluation Value := do
  let (test, positive, negative) ← shaped remaining (Shape.conditional operands)
  if (← call (.eval test env)).isTrue then call (.eval positive env)
  else match negative with
    | some e => call (.eval e env)
    | none => return .nil

/-- Bind a name in the frame itself, whatever the frames around it hold.  A closure written right
here takes the name; a value that comes from elsewhere keeps the one it has. -/
def runDefine (remaining : Nat) (call : Caller) (operands : List Value) (env : FrameId) :
    Evaluation Value := do
  match ← shaped remaining (Shape.definition operands) with
  | .procedure name formals body =>
    write env name (← newClosure ⟨formals, body, env, some name⟩)
  | .value name expr =>
    let value ← call (.eval expr env)
    if Shape.isLambda expr then nameClosure value name
    write env name value
  return .nil

/-- Make a closure of the frame at hand. -/
def runLambda (remaining : Nat) (operands : List Value) (env : FrameId) : Evaluation Value := do
  let (formals, body) ← shaped remaining (Shape.lambda operands)
  newClosure ⟨formals, body, env, none⟩

/-- Evaluate all expressions; the last one gives the value. -/
def runBegin (call : Caller) (operands : List Value) (env : FrameId) : Evaluation Value :=
  if operands.isEmpty then fail (.shape .emptyBegin)
  else evalLast (fun e => call (.eval e env)) operands

/-- Evaluate all values outside the new frame, then bind them together.  The names are distinct here,
so the slots stand as they are written. -/
def runLet (remaining : Nat) (call : Caller) (operands : List Value) (env : FrameId) :
    Evaluation Value := do
  let (bindings, body) ← shaped remaining (Shape.letParts "let" false operands)
  let values ← evalEach (fun e => call (.nested (.eval e env))) (bindings.map (·.2))
  let frame ← newFrame env ((bindings.map (·.1)).zip values)
  call (.eval body frame)

/-- Evaluate each value in the frame, after the bindings before it. -/
def bindInOrder (call : Caller) (frame : FrameId) : List (String × Value) → Evaluation Unit
  | [] => pure ()
  | (name, expr) :: rest => do
    write frame name (← call (.eval expr frame))
    bindInOrder call frame rest

/-- Bind in order, in one new frame.  Whether the frame is made before the shape of the bindings is
checked or after it makes no difference to any program: where the check fails nothing holds the
address of the frame, and it is never seen again. -/
def runLetStar (remaining : Nat) (call : Caller) (operands : List Value) (env : FrameId) :
    Evaluation Value := do
  let (bindings, body) ← shaped remaining (Shape.letParts "let*" true operands)
  let frame ← newFrame env []
  bindInOrder call frame bindings
  call (.eval body frame)

/-- Is a value a closure of this frame that has no name yet? -/
def isFresh (heap : Heap) (frame : FrameId) (value : Value) : Bool :=
  match heap.closure? value with
  | some c => c.name.isNone && c.env == frame
  | none => false

/-- Evaluate each value in the frame where all the names are declared already, and name the
closures made there. -/
def assignInOrder (call : Caller) (frame : FrameId) : List (String × Value) → Evaluation Unit
  | [] => pure ()
  | (name, expr) :: rest => do
    let value ← call (.eval expr frame)
    if ← view (isFresh · frame value) then nameClosure value name
    write frame name value
    assignInOrder call frame rest

/-- Declare all names in one new frame, then assign their values in order. -/
def runLetrec (remaining : Nat) (call : Caller) (operands : List Value) (env : FrameId) :
    Evaluation Value := do
  let (bindings, body) ← shaped remaining (Shape.letParts "letrec" false operands)
  let frame ← newFrame env (bindings.map fun (name, _) => (name, .unassigned))
  assignInOrder call frame bindings
  call (.eval body frame)

/-- Evaluate until a value is `#f`; the last value otherwise, and `#t` for no operands. -/
def runAnd (call : Caller) (env : FrameId) : List Value → Evaluation Value
  | [] => return .bool true
  | [e] => call (.eval e env)
  | e :: es => do
    if (← call (.eval e env)).isTrue then runAnd call env es else return .bool false

/-- Evaluate until a value is not `#f`, and answer with it; `#f` if there is none. -/
def runOr (call : Caller) (env : FrameId) : List Value → Evaluation Value
  | [] => return .bool false
  | e :: es => do
    let value ← call (.eval e env)
    if value.isTrue then return value else runOr call env es

/-- Take the first clause whose test holds: its last expression gives the value, or the test does
where it stands alone.  An `else` clause needs no test and must be the last.  A clause is
looked at only when those before it were not taken. -/
def runCond (remaining : Nat) (call : Caller) (env : FrameId) : List Value → Evaluation Value
  | [] => return .nil
  | .list (test :: body) :: rest =>
    if Shape.isElse test then
      if !rest.isEmpty then fail (.shape .elseNotLast)
      else if body.isEmpty then fail (.shape .elseWithoutBody)
      else evalLast (fun e => call (.eval e env)) body
    else do
      let value ← call (.eval test env)
      if !value.isTrue then runCond remaining call env rest
      else if body.isEmpty then return value
      else evalLast (fun e => call (.eval e env)) body
  | clause :: _ => shaped remaining (.error (.condClause clause))

/-- Run a special form. -/
def run (remaining : Nat) (call : Caller) (keyword : Keyword) (operands : List Value)
    (env : FrameId) : Evaluation Value :=
  match keyword with
  | .ifForm => runIf remaining call operands env
  | .defineForm => runDefine remaining call operands env
  | .lambdaForm => runLambda remaining operands env
  | .beginForm => runBegin call operands env
  | .letForm => runLet remaining call operands env
  | .letStarForm => runLetStar remaining call operands env
  | .letrecForm => runLetrec remaining call operands env
  | .andForm => runAnd call env operands
  | .orForm => runOr call env operands
  | .condForm => runCond remaining call env operands

end Form

namespace Call

/-! ## Evaluation and application -/

/-- An atom is a literal, or a name to look up. -/
def evalAtom (text : String) (env : FrameId) : Evaluation Value :=
  match Literal.ofText text with
  | .boolean b => return .bool b
  | .integer i => return .int i
  | .float x => return .number (.float x)
  | .oversized digits => fail (.oversizedLiteral digits)
  | .name => query (·.lookup env text)

/-- A list is a special form if its head says so; otherwise head and operands are evaluated from
left to right and the one applied to the others. -/
def evalItems (call : Caller) (items : List Value) (env : FrameId) : Evaluation Value :=
  match items with
  | [] => fail (.shape .emptyApplication)
  | head :: operands =>
    match Keyword.ofHead? head with
    | some keyword => call (.form keyword operands env)
    | none => do
      let procedure ← call (.eval head env)
      let args ← evalEach (fun e => call (.nested (.eval e env))) operands
      call (.apply procedure args env)

/-- Atoms and lists can be evaluated, and nothing else. -/
def evalCode (call : Caller) (code : Value) (env : FrameId) : Evaluation Value :=
  match code with
  | .atom text => evalAtom text env
  | .list items | .array items => evalItems call items env
  | _ => failShowing code.inspect? .notEvaluable

/-- A closure's body is evaluated in a new frame, whose parent is the frame the closure was made
in: what the caller's frame holds does not matter.  The arguments are written to the frame one
after another. -/
def enter (call : Caller) (closure : Closure) (args : List Value) : Evaluation Value :=
  if args.length = closure.formals.length then do
    let frame ← newFrame closure.env (Frame.setAll (closure.formals.zip args) [])
    call (.nested (.eval closure.body frame))
  else fail (.parameterCount closure.name closure.formals.length args.length)

/-- Do what a procedure of the host asks for. -/
def answer (call : Caller) (env : FrameId) : HostRequest → Evaluation Value
  | .answer value => return value
  | .fail error => fail error
  | .lookup name => query (·.lookup env name)
  | .define name value => do
    write env name value
    return .nil
  | .depth => view fun heap => .int (heap.depth env)
  | .apply procedure args => call (.apply procedure args env)

/-- Apply a procedure; nothing else can be applied. -/
def applyProcedure (call : Caller) (procedure : Value) (args : List Value) (env : FrameId) :
    Evaluation Value := do
  match ← view (·.procedure? procedure) with
  | some (.closure closure) => enter call closure args
  | some (.primitive _ primitive) => query (primitive.apply · args)
  | some (.host _ respond) => answer call env (respond args)
  | none => failShowing procedure.display? .notApplicable

/-- One step of a call. -/
def step (remaining : Nat) (call : Caller) : Call → Evaluation Value
  | .eval code env => evalCode call code env
  | .form keyword operands env => Form.run remaining call keyword operands env
  | .apply procedure args env => applyProcedure call procedure args env
  | .nested inner => call inner

/-- Perform a call with at most so many nested calls, itself included. -/
def perform : (levels : Nat) → Call → Evaluation Value
  | 0 => fun _ => outOfDepth
  | levels + 1 => step levels (perform levels)

end Call

end ScopedLisp
