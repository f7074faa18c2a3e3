import ScopedLisp.Value.Printer

/-!
# ScopedLisp.Primitive.Apply

What the primitives compute.  Application checks the number of arguments first, then
their kinds from left to right, and computes last; so of two faults the earlier of
these is reported.
-/

namespace ScopedLisp.Primitive

/-! ## Argument checks -/

/-- The numbers that all arguments must be. -/
def numbers (heap : Heap) (p : Primitive) : List Value → Except EvalError (List Number)
  | [] => .ok []
  | .number n :: vs => (numbers heap p vs).map (n :: ·)
  | v :: _ => (v.display? heap).bind fun shown => .error (.notNumber p.name shown)

/-- The integers that all arguments must be. -/
def integers (heap : Heap) (p : Primitive) : List Value → Except EvalError (List Int)
  | [] => .ok []
  | .number (.int i) :: vs => (integers heap p vs).map (i :: ·)
  | v :: _ => (v.display? heap).bind fun shown => .error (.notInteger p.name shown)

/-- A failure of arithmetic as an error of the primitive that met it. -/
def arithmeticError (p : Primitive) : Number.Failure → EvalError
  | .integerTooLarge => .overflow p.name .integer
  | .quotientTooLarge => .overflow p.name .quotient
  | .divisionByZero => .divisionByZero none

/-! ## Computation -/

/-- Primitives on numbers.  Argument counts without a line of their own are never met: the
arity excludes them. -/
def onNumbers : Primitive → List Number → Except Number.Failure Value
  | .add, xs => (Number.sum xs).map .number
  | .mul, xs => (Number.product xs).map .number
  | .sub, [x] => .ok (.number x.neg)
  | .sub, x :: xs => (Number.difference x xs).map .number
  | .div, [x] => (Number.quotient (.int 1) [x]).map .number
  | .div, x :: xs => (Number.quotient x xs).map .number
  | .abs, [x] => .ok (.number x.abs)
  | .min, x :: xs => .ok (.number (Number.minimum x xs))
  | .max, x :: xs => .ok (.number (Number.maximum x xs))
  | .equal, [x, y] => .ok (.bool (x.eq y))
  | .less, [x, y] => .ok (.bool (x.lt y))
  | .greater, [x, y] => .ok (.bool (y.lt x))
  | .atMost, [x, y] => .ok (.bool (x.le y))
  | .atLeast, [x, y] => .ok (.bool (y.le x))
  | .isZero, [x] => .ok (.bool x.isZero)
  | _, _ => .ok .nil

/-- The quotient rounded towards zero: that of the absolute values, negated where one of the two
is negative and the other is not. -/
def truncatingQuotient (a b : Int) : Int :=
  let q : Int := (a.natAbs / b.natAbs : Nat)
  if 0 ≤ a ↔ 0 ≤ b then q else -q

/-- The three integer divisions: `quotient` rounds towards zero, `remainder` is what it leaves,
`modulo` rounds down and has the sign of the divisor. -/
def divideIntegers (p : Primitive) (a b : Int) : Except EvalError Value :=
  if b = 0 then .error (.divisionByZero (some p.name))
  else match p with
    | .quotient => .ok (.int (truncatingQuotient a b))
    | .remainder => .ok (.int (a - b * truncatingQuotient a b))
    | _ => .ok (.int (a.fmod b))

theorem truncatingQuotient_eq_tdiv (a b : Int) : truncatingQuotient a b = a.tdiv b := by
  have negative (n : Nat) : ¬0 ≤ Int.negSucc n := Int.not_le.mpr (Int.negSucc_lt_zero n)
  have nonneg (n : Nat) : 0 ≤ Int.ofNat n := Int.natCast_nonneg n
  unfold truncatingQuotient
  cases a with
  | ofNat m =>
    cases b with
    | ofNat n => exact if_pos ⟨fun _ => nonneg n, fun _ => nonneg m⟩
    | negSucc n => exact if_neg fun h => negative n (h.mp (nonneg m))
  | negSucc m =>
    cases b with
    | ofNat n => exact if_neg fun h => negative m (h.mpr (nonneg n))
    | negSucc n => exact if_pos ⟨fun h => absurd h (negative m), fun h => absurd h (negative n)⟩

/-- What the truncating quotient leaves is the remainder with the sign of the dividend. -/
theorem sub_mul_truncatingQuotient (a b : Int) : a - b * truncatingQuotient a b = a.tmod b := by
  rw [truncatingQuotient_eq_tdiv, Int.tmod_def]

/-- Primitives on values of any kind. -/
def onValues : Primitive → List Value → Value
  | .not, [v] => .bool (!v.isTrue)
  | .same, [a, b] => .bool (a.same b)
  | .isNumber, [v] => .bool (v matches .number _)
  | .isBoolean, [v] => .bool (v matches .bool _)
  | .isSymbol, [v] => .bool (v matches .symbol _)
  | .isProcedure, [v] => .bool (v matches .procedure _)
  | _, _ => .nil

/-- What a primitive does with arguments of a right number. -/
def compute (heap : Heap) (p : Primitive) (args : List Value) : Except EvalError Value :=
  match p with
  | .quotient | .remainder | .modulo => do
    match ← p.integers heap args with
    | [a, b] => p.divideIntegers a b
    | _ => return .nil
  | .not | .same | .isNumber | .isBoolean | .isSymbol | .isProcedure => .ok (p.onValues args)
  | _ => do (p.onNumbers (← p.numbers heap args)).mapError p.arithmeticError

/-- The error of a wrong number of arguments, if it is wrong. -/
def checkCount (name : String) (arity : Arity) (count : Nat) : Except EvalError Unit :=
  match arity.broken? count with
  | some bound => .error (.argumentCount name bound count)
  | none => .ok ()

/-- Apply a primitive. -/
def apply (heap : Heap) (p : Primitive) (args : List Value) : Except EvalError Value := do
  checkCount p.name p.arity args.length
  p.compute heap args

end ScopedLisp.Primitive
