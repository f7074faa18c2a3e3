import ScopedLisp.Form.Shape
import ScopedLisp.Primitive.Apply

/-!
# ScopedLisp.Evaluation

Computations on the heap.  A computation ends with a value, with an error of the
program, or because nested calls went too deep; in each case it leaves the heap as it
was at that moment.  Depth is kept apart from the errors, because no form may react to
it: it is turned into an error only where evaluation was entered.
-/

namespace ScopedLisp

/-- An error of shape as one of evaluation, with the offending code as text. -/
def ShapeError.report (heap : Heap) (error : ShapeError Value) : EvalError :=
  match error.found? with
  | none => (error.map fun _ => "").toEvalError
  | some found =>
    match found.describe heap with
    | .ok text => (error.map fun _ => text).toEvalError
    | .error failure => failure

/-- Why a computation has no value. -/
inductive Failure where
  | error (error : EvalError)
  /-- More nested calls than are allowed. -/
  | outOfDepth
  deriving DecidableEq, Repr

/-- A computation on the heap. -/
abbrev Evaluation (α : Type) := EStateM Failure Heap α

namespace Evaluation

/-- End with an error. -/
def fail {α : Type} (error : EvalError) : Evaluation α := fun heap => .error (.error error) heap

/-- End because nested calls went too deep. -/
def outOfDepth {α : Type} : Evaluation α := fun heap => .error .outOfDepth heap

/-- Look at the heap. -/
def view {α : Type} (f : Heap → α) : Evaluation α := fun heap => .ok (f heap) heap

/-- Look at the heap for something that may be missing. -/
def query {α : Type} (f : Heap → Except EvalError α) : Evaluation α := fun heap =>
  match f heap with
  | .ok a => .ok a heap
  | .error error => .error (.error error) heap

/-- Make a frame. -/
def newFrame (parent : FrameId) (slots : List (String × Value)) : Evaluation FrameId := fun heap =>
  let (f, heap) := heap.newFrame (some parent) slots
  .ok f heap

/-- Make a closure. -/
def newClosure (closure : Closure) : Evaluation Value := fun heap =>
  let (id, heap) := heap.newProcedure (.closure closure)
  .ok (.procedure id) heap

/-- Write a slot of a frame. -/
def write (f : FrameId) (name : String) (value : Value) : Evaluation Unit := fun heap =>
  .ok () (heap.write f name value)

/-- Give a name to the closure that a value is; other values stay as they are. -/
def nameClosure (value : Value) (name : String) : Evaluation Unit := fun heap =>
  match value with
  | .procedure id => .ok () (heap.nameClosure id name)
  | _ => .ok () heap

/-- The error of a value that does not fit, with the value as text. -/
def failShowing {α : Type} (text : Heap → Except EvalError String) (error : String → EvalError) :
    Evaluation α :=
  query fun heap => (text heap).bind fun shown => .error (error shown)

/-- The parts of a checked shape, or the error of the shape.  Writing the offending code takes
nested calls; with too few of them remaining the computation ends for want of depth. -/
def shaped {α : Type} (remaining : Nat) : Shape.Checked α → Evaluation α
  | .ok parts => pure parts
  | .error error =>
    if remaining < (error.found?.map Value.sourceLevels).getD 0 then outOfDepth
    else query fun heap => .error (error.report heap)

/-- The values of a row of expressions, evaluated from left to right. -/
def evalEach (eval : Value → Evaluation Value) : List Value → Evaluation (List Value)
  | [] => pure []
  | e :: es => do
    let v ← eval e
    let vs ← evalEach eval es
    return v :: vs

/-- The value of the last of a row of expressions, after evaluating all; `nil` if there is none. -/
def evalLast (eval : Value → Evaluation Value) : List Value → Evaluation Value
  | [] => pure .nil
  | [e] => eval e
  | e :: es => do
    let _ ← eval e
    evalLast eval es

end Evaluation

end ScopedLisp
