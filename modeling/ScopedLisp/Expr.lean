/-!
# ScopedLisp.Expr

Expressions as the reader builds them: an atom is the text of a symbol or of a
literal, and a list holds expressions.  What an atom means is left to evaluation.
-/

namespace ScopedLisp

/-- An expression: an atom or a list of expressions. -/
inductive Expr where
  | atom (text : String)
  | list (items : List Expr)
  deriving Inhabited, Repr

namespace Expr

/-! ## Equality -/

mutual
/-- Are two expressions the same tree? -/
def same : Expr → Expr → Bool
  | .atom a, .atom b => a == b
  | .list xs, .list ys => sameItems xs ys
  | _, _ => false

/-- Are two lists of expressions the same, item by item? -/
def sameItems : List Expr → List Expr → Bool
  | [], [] => true
  | x :: xs, y :: ys => same x y && sameItems xs ys
  | _, _ => false
end

mutual

/-- The comparison decides equality of trees. -/
theorem same_iff : ∀ a b : Expr, same a b = true ↔ a = b
  | .atom a, .atom b => by simp [same]
  | .list xs, .list ys => by simp [same, sameItems_iff xs ys]
  | .atom _, .list _ => by simp [same]
  | .list _, .atom _ => by simp [same]

/-- The comparison decides equality of rows of trees. -/
theorem sameItems_iff : ∀ xs ys : List Expr, sameItems xs ys = true ↔ xs = ys
  | [], [] => by simp [sameItems]
  | x :: xs, y :: ys => by simp [sameItems, same_iff x y, sameItems_iff xs ys]
  | [], _ :: _ => by simp [sameItems]
  | _ :: _, [] => by simp [sameItems]
end

instance : DecidableEq Expr := fun a b => decidable_of_iff _ (same_iff a b)

/-! ## Writing -/

mutual
/-- The source text of an expression, in front of `rest`: an atom is written as it is, a
list between parentheses with one blank between its items. -/
def writeBefore : Expr → List Char → List Char
  | .atom text, rest => text.toList ++ rest
  | .list items, rest => '(' :: writeItemsBefore items (')' :: rest)

/-- The items of a list with one blank between them, in front of `rest`. -/
def writeItemsBefore : List Expr → List Char → List Char
  | [], rest => rest
  | [item], rest => writeBefore item rest
  | item :: items, rest => writeBefore item (' ' :: writeItemsBefore items rest)
end

/-- The source text of an expression. -/
def toSource (e : Expr) : String := String.ofList (e.writeBefore [])

mutual
/-- The token texts of an expression in front of `rest`, each list between parentheses. -/
def flattenBefore : Expr → List String → List String
  | .atom text, rest => text :: rest
  | .list items, rest => "(" :: flattenItemsBefore items (")" :: rest)

/-- The token texts of a row of expressions in front of `rest`. -/
def flattenItemsBefore : List Expr → List String → List String
  | [], rest => rest
  | item :: items, rest => flattenBefore item (flattenItemsBefore items rest)
end

/-- The token texts of an expression, in order. -/
def flatten (e : Expr) : List String := e.flattenBefore []

/-! ## Size -/

mutual
/-- How deeply lists are nested: 0 for an atom. -/
def height : Expr → Nat
  | .atom _ => 0
  | .list items => heightItems items + 1

/-- The greatest height in a row of expressions. -/
def heightItems : List Expr → Nat
  | [] => 0
  | item :: items => max (height item) (heightItems items)
end

end Expr

end ScopedLisp
