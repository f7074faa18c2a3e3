import ScopedLisp.Arity

/-!
# ScopedLisp.Primitive

The primitive procedures of a standard root frame, their names and how many arguments
each takes.  What they compute is in `ScopedLisp.Primitive.Apply`.
-/

namespace ScopedLisp

/-- The primitive procedures. -/
inductive Primitive where
  | add | sub | mul | div
  | equal | less | greater | atMost | atLeast
  | quotient | remainder | modulo
  | abs | min | max
  | not | same
  | isNumber | isBoolean | isSymbol | isProcedure | isZero
  deriving DecidableEq, Repr, Inhabited

namespace Primitive

/-- Every primitive, in the order in which a root frame lists them. -/
def all : List Primitive := [
  .add, .sub, .mul, .div, .equal, .less, .greater, .atMost, .atLeast, .quotient, .remainder,
  .modulo, .abs, .min, .max, .not, .same, .isNumber, .isBoolean, .isSymbol, .isProcedure, .isZero]

/-- The name that programs call a primitive by. -/
def name : Primitive → String
  | .add => "+"
  | .sub => "-"
  | .mul => "*"
  | .div => "/"
  | .equal => "="
  | .less => "<"
  | .greater => ">"
  | .atMost => "<="
  | .atLeast => ">="
  | .quotient => "quotient"
  | .remainder => "remainder"
  | .modulo => "modulo"
  | .abs => "abs"
  | .min => "min"
  | .max => "max"
  | .not => "not"
  | .same => "eq?"
  | .isNumber => "number?"
  | .isBoolean => "boolean?"
  | .isSymbol => "symbol?"
  | .isProcedure => "procedure?"
  | .isZero => "zero?"

/-- How many arguments a primitive takes: sums and products any number, the other folds at least
one, everything else one or two. -/
def arity : Primitive → Arity
  | .add | .mul => .atLeast 0
  | .sub | .div | .min | .max => .atLeast 1
  | .equal | .less | .greater | .atMost | .atLeast | .quotient | .remainder | .modulo | .same =>
    .exactly 2
  | .abs | .not | .isNumber | .isBoolean | .isSymbol | .isProcedure | .isZero => .exactly 1

/-- The primitive of a name. -/
def ofName? (name : String) : Option Primitive := all.find? (·.name == name)

/-- No primitive is missing from the list. -/
theorem mem_all (p : Primitive) : p ∈ all := by cases p <;> decide

/-- A primitive is found again by its name, so no two share one. -/
theorem ofName?_name (p : Primitive) : ofName? p.name = some p := by cases p <;> rfl

end Primitive

end ScopedLisp
