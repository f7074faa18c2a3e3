import ScopedLisp.Number
import ScopedLisp.Text.DecimalDigit

/-!
# ScopedLisp.Literal

What the text of an atom means.  Four spellings are booleans.  An integer is a sign,
which may be missing, and decimal digits of any script.  A double has a point or an
exponent as well:

```
double   = sign? (digits "." digits? | "." digits | digits) exponent?
exponent = ("e" | "E") sign? digits
```

Every other text is a name.  An integer of more than `Number.digitLimit` digits is
none of these: it is recognised, and refused.
-/

namespace ScopedLisp

open Text

/-- What the text of an atom stands for. -/
inductive Literal where
  | boolean (value : Bool)
  | integer (value : Int)
  | float (value : Float)
  /-- An integer of so many digits that it is not read. -/
  | oversized (digits : Nat)
  /-- No literal: a name to look up or to bind. -/
  | name

namespace Literal

/-- A sign in front of a text, if there is one: is it a minus, and what follows. -/
def splitSign : List Char → Bool × List Char
  | '+' :: rest => (false, rest)
  | '-' :: rest => (true, rest)
  | cs => (false, cs)

/-- The number that a row of decimal digits stands for. -/
def digitsValue (cs : List Char) : Nat :=
  cs.foldl (fun n c => 10 * n + (digitValue? c).getD 0) 0

/-- The exponent at the end of a double: nothing, which is 0, or a mark, a sign and digits. -/
def exponent? : List Char → Option Int
  | [] => some 0
  | mark :: rest =>
    let (negative, digits) := splitSign rest
    if (mark = 'e' || mark = 'E') && !digits.isEmpty && digits.all isDecimalDigit then
      let n : Int := digitsValue digits
      some (if negative then -n else n)
    else none

/-- The digits of a double before and behind its point, and its exponent. -/
def doubleParts? (body : List Char) : Option (List Char × List Char × Int) :=
  let whole := body.takeWhile isDecimalDigit
  match body.dropWhile isDecimalDigit with
  | '.' :: rest =>
    let fraction := rest.takeWhile isDecimalDigit
    if whole.isEmpty && fraction.isEmpty then none
    else (exponent? (rest.dropWhile isDecimalDigit)).map (whole, fraction, ·)
  | rest => if whole.isEmpty then none else (exponent? rest).map (whole, [], ·)

/-- The meaning of an unsigned literal under a sign. -/
def ofUnsigned (negative : Bool) (body : List Char) : Literal :=
  if !body.isEmpty && body.all isDecimalDigit then
    if Number.digitLimit < body.length then .oversized body.length
    else
      let n : Int := digitsValue body
      .integer (if negative then -n else n)
  else match doubleParts? body with
    | some (whole, fraction, exponent) =>
      .float (Number.floatOfDecimal negative (digitsValue (whole ++ fraction))
        (exponent - fraction.length))
    | none => .name

/-- The meaning of an atom's text. -/
def ofText (text : String) : Literal :=
  if text = "#t" || text = "#true" then .boolean true
  else if text = "#f" || text = "#false" then .boolean false
  else
    let (negative, body) := splitSign text.toList
    ofUnsigned negative body

/-- Can an atom be bound, because its text is no literal? -/
def isName : Literal → Bool
  | .name => true
  | _ => false

end Literal

end ScopedLisp
