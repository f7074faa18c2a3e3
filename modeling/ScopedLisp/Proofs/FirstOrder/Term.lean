import Mathlib.Algebra.BigOperators.Fin
import Mathlib.Data.Fintype.Lattice
import ScopedLisp.Proofs.Form.Code
import ScopedLisp.Proofs.Lexing
import ScopedLisp.Proofs.Literal.Grammar
import ScopedLisp.Primitive

/-!
# ScopedLisp.Proofs.FirstOrder.Term

First-order programs: expressions over integers and booleans, with local variables and without procedures of their
own.

A term is typed by construction: `Term Γ τ` has a value of type `τ` wherever the variables of `Γ` have values of
theirs.  A variable stands for the nearest binding of its name (`Position`).  What a term means is a mathematical
value, or the integer division that meets a zero first when operands are evaluated from left to right
(`Term.denote`); nothing in it speaks of frames, lists or nested calls.  What a term looks like is code
(`Term.code`), and how deeply its evaluation is nested can be told from it alone (`Term.levels`).
-/

namespace ScopedLisp.FirstOrder

/-! ## Types, variables and values -/

/-- The types of first-order programs. -/
inductive Ty where
  | integer
  | boolean
  deriving DecidableEq, Repr

/-- The mathematical values of a type. -/
abbrev Ty.Den : Ty → Type
  | .integer => Int
  | .boolean => Bool

/-- A value as the interpreter represents it. -/
def Ty.value : (τ : Ty) → τ.Den → Value
  | .integer, i => .int i
  | .boolean, b => .bool b

/-- A text that can be written as one atom. -/
def IsWord (text : String) : Prop := text ≠ "" ∧ Lexer.IsAtom text.toList

/-- A name that may be bound, and that means nothing else in an expression: it is not the name of a form, not a
literal and not a name of the root frame. -/
structure Variable where
  name : String
  is_name : Literal.ofText name = .name
  notKeyword : Keyword.ofName? name = none
  notPrimitive : Primitive.ofName? name = none
  notNil : name ≠ "nil"
  is_word : IsWord name

/-- Variables with their types, the nearest one first. -/
abbrev Context := List (Variable × Ty)

/-- The names of the variables. -/
def Context.names (Γ : Context) : List String := Γ.map (·.1.name)

/-- The nearest binding of a variable. -/
inductive Position : Context → Variable → Ty → Type where
  | here {Γ : Context} {x : Variable} {τ : Ty} : Position ((x, τ) :: Γ) x τ
  | there {Γ : Context} {x y : Variable} {τ σ : Ty} : x.name ≠ y.name → Position Γ x τ →
      Position ((y, σ) :: Γ) x τ

/-- Values for variables. -/
inductive Env : Context → Type where
  | nil : Env []
  | cons {Γ : Context} {x : Variable} {τ : Ty} : τ.Den → Env Γ → Env ((x, τ) :: Γ)

/-- The value of a variable. -/
def Env.get {Γ : Context} {x : Variable} {τ : Ty} : Env Γ → Position Γ x τ → τ.Den
  | .cons v _, .here => v
  | .cons _ ρ, .there _ position => ρ.get position

/-- Values for variables in front of others. -/
def Env.append {Δ Γ : Context} : Env Δ → Env Γ → Env (Δ ++ Γ)
  | .nil, ρ => ρ
  | .cons v δ, ρ => .cons v (δ.append ρ)

/-! ## Operations -/

/-- The operations of first-order programs, by the type and the number of their operands and the type of the
result. -/
inductive Operator : Ty → Nat → Ty → Type where
  | sum (n : Nat) : Operator .integer n .integer
  | product (n : Nat) : Operator .integer n .integer
  | difference (n : Nat) : Operator .integer (n + 1) .integer
  | least (n : Nat) : Operator .integer (n + 1) .integer
  | greatest (n : Nat) : Operator .integer (n + 1) .integer
  | quotient : Operator .integer 2 .integer
  | remainder : Operator .integer 2 .integer
  | modulus : Operator .integer 2 .integer
  | absolute : Operator .integer 1 .integer
  | equal : Operator .integer 2 .boolean
  | less : Operator .integer 2 .boolean
  | greater : Operator .integer 2 .boolean
  | atMost : Operator .integer 2 .boolean
  | atLeast : Operator .integer 2 .boolean
  | negation : Operator .boolean 1 .boolean

namespace Operator

variable {σ τ : Ty} {n : Nat}

/-- The primitive that carries an operation out. -/
def primitive : Operator σ n τ → Primitive
  | .sum _ => .add
  | .product _ => .mul
  | .difference _ => .sub
  | .least _ => .min
  | .greatest _ => .max
  | .quotient => .quotient
  | .remainder => .remainder
  | .modulus => .modulo
  | .absolute => .abs
  | .equal => .equal
  | .less => .less
  | .greater => .greater
  | .atMost => .atMost
  | .atLeast => .atLeast
  | .negation => .not

/-- An integer division, which a divisor of zero keeps from having a value. -/
def divide (p : Primitive) (division : Int → Int → Int) (a b : Int) : Except Primitive Int :=
  if b = 0 then .error p else .ok (division a b)

/-- The mathematical meaning of an operation. -/
def meaning : Operator σ n τ → (Fin n → σ.Den) → Except Primitive τ.Den
  | .sum _, v => .ok (∑ i, v i)
  | .product _, v => .ok (∏ i, v i)
  | .difference 0, v => .ok (-v 0)
  | .difference (_ + 1), v => .ok (v 0 - ∑ i, v (Fin.succ i))
  | .least _, v => .ok (Finset.univ.inf' Finset.univ_nonempty v)
  | .greatest _, v => .ok (Finset.univ.sup' Finset.univ_nonempty v)
  | .quotient, v => divide .quotient Int.tdiv (v 0) (v 1)
  | .remainder, v => divide .remainder Int.tmod (v 0) (v 1)
  | .modulus, v => divide .modulo Int.fmod (v 0) (v 1)
  | .absolute, v => .ok |v 0|
  | .equal, v => .ok (v 0 = v 1)
  | .less, v => .ok (v 0 < v 1)
  | .greater, v => .ok (v 1 < v 0)
  | .atMost, v => .ok (v 0 ≤ v 1)
  | .atLeast, v => .ok (v 1 ≤ v 0)
  | .negation, v => .ok (!v 0)

end Operator

/-! ## Terms -/

/-- The literal of an integer: a sign, which may be missing, and digits, not too many. -/
structure Numeral where
  sign : List Char
  digits : List Char
  sign_mem : sign ∈ Literal.Grammar.sign
  digits_mem : digits ∈ Literal.Grammar.digits
  fits : digits.length ≤ Number.digitLimit

/-- The integer that a literal stands for. -/
def Numeral.value (n : Numeral) : Int := Literal.Grammar.signed n.sign n.digits

mutual
/-- Terms of a type in a context. -/
inductive Term : Context → Ty → Type where
  | numeral {Γ : Context} (n : Numeral) : Term Γ .integer
  | truth {Γ : Context} (b : Bool) : Term Γ .boolean
  | var {Γ : Context} {x : Variable} {τ : Ty} (position : Position Γ x τ) : Term Γ τ
  | conditional {Γ : Context} {τ : Ty} (test : Term Γ .boolean) (positive negative : Term Γ τ) : Term Γ τ
  /-- Values of variables that do not see each other, and a body that sees them all. -/
  | letTogether {Γ Δ : Context} {τ : Ty} (bindings : Bindings Γ Δ) (distinct : Δ.names.Nodup)
      (body : Body (Δ ++ Γ) τ) : Term Γ τ
  /-- Values of variables each of which sees those before it, and a body that sees them all. -/
  | letInOrder {Γ Δ : Context} {τ : Ty} (bindings : Telescope Γ Δ) (body : Body Δ τ) : Term Γ τ
  | application {Γ : Context} {σ τ : Ty} {n : Nat} (op : Operator σ n τ) (operands : Operands Γ σ n) : Term Γ τ

/-- Values for the variables of a context, all in the same context. -/
inductive Bindings : Context → Context → Type where
  | nil {Γ : Context} : Bindings Γ []
  | cons {Γ Δ : Context} {τ : Ty} (x : Variable) (value : Term Γ τ) (rest : Bindings Γ Δ) :
      Bindings Γ ((x, τ) :: Δ)

/-- Values for variables that are added to a context one after the other, and the context they come to. -/
inductive Telescope : Context → Context → Type where
  | nil {Γ : Context} : Telescope Γ Γ
  | cons {Γ Δ : Context} {τ : Ty} (x : Variable) (value : Term Γ τ) (rest : Telescope ((x, τ) :: Γ) Δ) :
      Telescope Γ Δ

/-- Expressions of which the last gives the value. -/
inductive Body : Context → Ty → Type where
  | last {Γ : Context} {τ : Ty} (value : Term Γ τ) : Body Γ τ
  | cons {Γ : Context} {σ τ : Ty} (first : Term Γ σ) (rest : Body Γ τ) : Body Γ τ

/-- Operands of one type. -/
inductive Operands : Context → Ty → Nat → Type where
  | nil {Γ : Context} {σ : Ty} : Operands Γ σ 0
  | cons {Γ : Context} {σ : Ty} {n : Nat} (first : Term Γ σ) (rest : Operands Γ σ n) : Operands Γ σ (n + 1)
end

/-! ## Meaning -/

mutual
/-- What a term means: a value, or the division that meets a zero first. -/
def Term.denote {Γ : Context} {τ : Ty} : Term Γ τ → Env Γ → Except Primitive τ.Den
  | .numeral n, _ => .ok n.value
  | .truth b, _ => .ok b
  | .var position, ρ => .ok (ρ.get position)
  | .conditional test positive negative, ρ => do
    if ← test.denote ρ then positive.denote ρ else negative.denote ρ
  | .letTogether bindings _ body, ρ => do body.denote ((← bindings.denote ρ).append ρ)
  | .letInOrder bindings body, ρ => do body.denote (← bindings.denote ρ)
  | .application op operands, ρ => do op.meaning (← operands.denote ρ)

/-- The values of bindings. -/
def Bindings.denote {Γ Δ : Context} : Bindings Γ Δ → Env Γ → Except Primitive (Env Δ)
  | .nil, _ => .ok .nil
  | .cons _ value rest, ρ => do return .cons (← value.denote ρ) (← rest.denote ρ)

/-- The values for variables after all bindings. -/
def Telescope.denote {Γ Δ : Context} : Telescope Γ Δ → Env Γ → Except Primitive (Env Δ)
  | .nil, ρ => .ok ρ
  | .cons _ value rest, ρ => do rest.denote (.cons (← value.denote ρ) ρ)

/-- What a body means. -/
def Body.denote {Γ : Context} {τ : Ty} : Body Γ τ → Env Γ → Except Primitive τ.Den
  | .last value, ρ => value.denote ρ
  | .cons first rest, ρ => do
    let _ ← first.denote ρ
    rest.denote ρ

/-- The values of operands. -/
def Operands.denote {Γ : Context} {σ : Ty} {n : Nat} : Operands Γ σ n → Env Γ → Except Primitive (Fin n → σ.Den)
  | .nil, _ => .ok Fin.elim0
  | .cons first rest, ρ => do return Fin.cons (← first.denote ρ) (← rest.denote ρ)
end

/-! ## Code -/

/-- The text of an integer. -/
def Numeral.text (n : Numeral) : String := String.ofList (n.sign ++ n.digits)

/-- A form as an expression. -/
def formExpr (keyword : Keyword) (operands : List Expr) : Expr := .list (.atom keyword.name :: operands)

/-- Names with their expressions, as a form that binds them lists them. -/
def bindingsExpr (bindings : List (String × Expr)) : Expr := .list (bindings.map fun (x, e) => .list [.atom x, e])

mutual
/-- The expression that a term is written as. -/
def Term.code {Γ : Context} {τ : Ty} : Term Γ τ → Expr
  | .numeral n => .atom n.text
  | .truth b => .atom (if b then "#t" else "#f")
  | @Term.var _ x _ _ => .atom x.name
  | .conditional test positive negative => formExpr .ifForm [test.code, positive.code, negative.code]
  | .letTogether bindings _ body => formExpr .letForm (bindingsExpr bindings.codes :: body.codes)
  | .letInOrder bindings body => formExpr .letStarForm (bindingsExpr bindings.codes :: body.codes)
  | .application op operands => .list (.atom op.primitive.name :: operands.codes)

/-- The names that are bound and the expressions for their values. -/
def Bindings.codes {Γ Δ : Context} : Bindings Γ Δ → List (String × Expr)
  | .nil => []
  | .cons x value rest => (x.name, value.code) :: rest.codes

/-- The names that are bound and the expressions for their values. -/
def Telescope.codes {Γ Δ : Context} : Telescope Γ Δ → List (String × Expr)
  | .nil => []
  | .cons x value rest => (x.name, value.code) :: rest.codes

/-- The expressions of a body. -/
def Body.codes {Γ : Context} {τ : Ty} : Body Γ τ → List Expr
  | .last value => [value.code]
  | .cons first rest => first.code :: rest.codes

/-- The expressions of operands. -/
def Operands.codes {Γ : Context} {σ : Ty} {n : Nat} : Operands Γ σ n → List Expr
  | .nil => []
  | .cons first rest => first.code :: rest.codes
end

/-! ## Depth -/

/-- The levels that several expressions take as one: they are wrapped in a `begin`. -/
def Body.wrapping {Γ : Context} {τ : Ty} : Body Γ τ → Nat
  | .last _ => 0
  | .cons _ _ => 2

mutual
/-- How many levels the evaluation of a term takes at most: one for an expression, and one more for running the form
or applying the operator that it is made of; operands and the values of a `let` are one level further in. -/
def Term.levels {Γ : Context} {τ : Ty} : Term Γ τ → Nat
  | .numeral _ | .truth _ | .var _ => 1
  | .conditional test positive negative => max test.levels (max positive.levels negative.levels) + 2
  | .letTogether bindings _ body => max (bindings.levels + 1) (body.levels + body.wrapping) + 2
  | .letInOrder bindings body => max bindings.levels (body.levels + body.wrapping) + 2
  | .application _ operands => operands.levels + 2

/-- The levels of the deepest binding. -/
def Bindings.levels {Γ Δ : Context} : Bindings Γ Δ → Nat
  | .nil => 0
  | .cons _ value rest => max value.levels rest.levels

/-- The levels of the deepest binding. -/
def Telescope.levels {Γ Δ : Context} : Telescope Γ Δ → Nat
  | .nil => 0
  | .cons _ value rest => max value.levels rest.levels

/-- The levels of the deepest expression. -/
def Body.levels {Γ : Context} {τ : Ty} : Body Γ τ → Nat
  | .last value => value.levels
  | .cons first rest => max first.levels rest.levels

/-- The levels of the deepest operand. -/
def Operands.levels {Γ : Context} {σ : Ty} {n : Nat} : Operands Γ σ n → Nat
  | .nil => 0
  | .cons first rest => max first.levels rest.levels
end

theorem Term.levels_pos {Γ : Context} {τ : Ty} (t : Term Γ τ) : 0 < t.levels := by
  cases t <;> simp [Term.levels]

end ScopedLisp.FirstOrder
