/-!
# ScopedLisp.Arity

How many arguments a procedure takes, and what is wrong with another number.
-/

namespace ScopedLisp

/-- The least and, where there is one, the greatest number of arguments.  A host may ask for any
two numbers, so both are integers: no count is below a negative one. -/
structure Arity where
  minimum : Int
  maximum : Option Int
  deriving DecidableEq, Repr

namespace Arity

/-- Exactly `n` arguments. -/
def exactly (n : Nat) : Arity := ⟨n, some n⟩

/-- `n` arguments or more. -/
def atLeast (n : Nat) : Arity := ⟨n, none⟩

/-- The rule that a wrong number of arguments breaks. -/
inductive Bound where
  | exactly (n : Int)
  | atLeast (n : Int)
  | atMost (n : Int)
  deriving DecidableEq, Repr

/-- The rule that `count` arguments break; none if the number is right. -/
def broken? (arity : Arity) (count : Nat) : Option Bound :=
  if arity.maximum = some arity.minimum && (count : Int) ≠ arity.minimum then some (.exactly arity.minimum)
  else if (count : Int) < arity.minimum then some (.atLeast arity.minimum)
  else match arity.maximum with
    | some maximum => if maximum < (count : Int) then some (.atMost maximum) else none
    | none => none

/-- A number of arguments is right exactly if it lies between the two ends. -/
theorem broken?_eq_none_iff {arity : Arity} {count : Nat} :
    arity.broken? count = none ↔
      arity.minimum ≤ count ∧ ∀ maximum ∈ arity.maximum, (count : Int) ≤ maximum := by
  obtain ⟨minimum, maximum⟩ := arity
  cases maximum with
  | none => simp [broken?]
  | some maximum =>
    simp only [broken?, Option.mem_def, Option.some.injEq, forall_eq', Bool.and_eq_true,
      decide_eq_true_eq, ne_eq]
    repeat' split
    all_goals first | omega | (simp; omega)

/-- The plural ending of a noun that is counted. -/
def plural (n : Int) : String := if n = 1 then "" else "s"

/-- The rule in words. -/
def Bound.text : Bound → String
  | .exactly n => "requires exactly " ++ toString n ++ " argument" ++ plural n
  | .atLeast n => "requires at least " ++ toString n ++ " argument" ++ plural n
  | .atMost n => "accepts at most " ++ toString n ++ " arguments"

end Arity

end ScopedLisp
