import ScopedLisp.Expr
import ScopedLisp.Number

/-!
# ScopedLisp.Value

Values.  A program of its own computes numbers, booleans, the symbol `nil` and
procedures; a host that embeds the interpreter may hand in more: its null value,
texts, objects of its own, and code as data.  Code handed to the evaluator is a value too, so that what is
no expression can be refused by the evaluator itself: `Expr.toValue` embeds the
expressions, and `Value.toExpr` finds the first part that is none.
-/

namespace ScopedLisp

/-- The address of a procedure in the heap. -/
abbrev ProcedureId := Nat

/-- A value of the running program or of its host. -/
inductive Value where
  | number (n : Number)
  | bool (b : Bool)
  | symbol (name : String)
  | procedure (id : ProcedureId)
  /-- What a `letrec` name holds until its value is known. -/
  | unassigned
  /-- The null value of the host. -/
  | nothing
  /-- A text of the host. -/
  | string (s : String)
  /-- An object of the host, of which only its identity and its diagnostic text are known. -/
  | object (id : Nat) (shown : String)
  /-- An atom as data, or as code. -/
  | atom (text : String)
  /-- A list as data, or as code. -/
  | list (items : List Value)
  /-- A list that can still be changed by the host.  Evaluated like a list, but no expression. -/
  | array (items : List Value)

namespace Value

instance : Inhabited Value := ⟨.unassigned⟩

/-- The result of a form that has none. -/
def nil : Value := .symbol "nil"

/-- The integer `i`. -/
def int (i : Int) : Value := .number (.int i)

/-- Only `#f` is false; 0, `nil` and procedures are true. -/
def isTrue : Value → Bool
  | .bool b => b
  | _ => true

/-- The items of a list or an array. -/
def items? : Value → Option (List Value)
  | .list items | .array items => some items
  | _ => none

end Value

/-! ## Expressions among the values -/

mutual
/-- An expression as a value. -/
def Expr.toValue : Expr → Value
  | .atom text => .atom text
  | .list items => .list (Expr.toValues items)

/-- A row of expressions as values. -/
def Expr.toValues : List Expr → List Value
  | [] => []
  | e :: es => e.toValue :: Expr.toValues es
end

mutual
/-- The expression that a value is, or the first part of it that is none. -/
def Value.toExpr : Value → Except Value Expr
  | .atom text => .ok (.atom text)
  | .list items => (Value.toExprs items).map .list
  | v => .error v

/-- The expressions that a row of values is, or the first part of it that is none. -/
def Value.toExprs : List Value → Except Value (List Expr)
  | [] => .ok []
  | v :: vs =>
    match v.toExpr with
    | .error part => .error part
    | .ok e => (Value.toExprs vs).map (e :: ·)
end

mutual
/-- Embedded expressions are read off again. -/
@[simp] theorem Expr.toExpr_toValue : ∀ e : Expr, e.toValue.toExpr = .ok e
  | .atom _ => rfl
  | .list items => by simp [Expr.toValue, Value.toExpr, Expr.toExprs_toValues items, Except.map]

@[simp] theorem Expr.toExprs_toValues : ∀ es : List Expr, Value.toExprs (Expr.toValues es) = .ok es
  | [] => rfl
  | e :: es => by
    simp [Expr.toValues, Value.toExprs, Expr.toExpr_toValue e, Expr.toExprs_toValues es, Except.map]
end

/-- A row of trees as values, one by one. -/
theorem Expr.toValues_eq_map (es : List Expr) : Expr.toValues es = es.map Expr.toValue := by
  induction es with
  | nil => rfl
  | cons e es ih => simp [Expr.toValues, ih]

namespace Value

mutual
/-- How deeply lists are nested in a value. -/
def height : Value → Nat
  | .list items | .array items => heightItems items + 1
  | _ => 0

/-- The greatest height in a row of values. -/
def heightItems : List Value → Nat
  | [] => 0
  | v :: vs => max (height v) (heightItems vs)
end

/-- The nested calls that it takes to write code as source text: three for each level of lists. -/
def sourceLevels (code : Value) : Nat := 3 * code.height

mutual
/-- Does a value hold an integer of too many digits to be written? -/
def isUnwritable : Value → Bool
  | .number (.int i) => Number.isUnwritable i
  | .list items | .array items => areUnwritable items
  | _ => false

/-- Does a row of values hold an integer of too many digits to be written? -/
def areUnwritable : List Value → Bool
  | [] => false
  | v :: vs => isUnwritable v || areUnwritable vs
end

mutual
/-- Does a value hold a list that can still be changed?  Such a value cannot be searched for. -/
def isChangeable : Value → Bool
  | .array _ => true
  | .list items => areChangeable items
  | _ => false

/-- Does a row of values hold a list that can still be changed? -/
def areChangeable : List Value → Bool
  | [] => false
  | v :: vs => isChangeable v || areChangeable vs
end

/-- The number that a value counts as in a comparison by `equal`: booleans count as 0 and 1. -/
def numeric? : Value → Option Number
  | .number n => some n
  | .bool b => some (.int (if b then 1 else 0))
  | _ => none

mutual
/-- Equality of values as the host sees it: numbers and booleans by numeric value, procedures
and objects by identity, all else by kind and content. -/
def equal (a b : Value) : Bool :=
  match a, b with
  | .symbol a, .symbol b => a == b
  | .procedure a, .procedure b => a == b
  | .unassigned, .unassigned => true
  | .nothing, .nothing => true
  | .string a, .string b => a == b
  | .object a _, .object b _ => a == b
  | .atom a, .atom b => a == b
  | .list xs, .list ys => equalItems xs ys
  | .array xs, .array ys => equalItems xs ys
  | a, b =>
    match a.numeric?, b.numeric? with
    | some m, some n => m.eq n
    | _, _ => false

/-- Equality of two rows of values. -/
def equalItems : List Value → List Value → Bool
  | [], [] => true
  | x :: xs, y :: ys => equal x y && equalItems xs ys
  | _, _ => false
end

/-- Equality of values inside the language: procedures and booleans are equal only to
themselves, and a number is equal to no boolean. -/
def same : Value → Value → Bool
  | .bool a, .bool b => a == b
  | .bool _, _ | _, .bool _ => false
  | a, b => equal a b

end Value

end ScopedLisp
