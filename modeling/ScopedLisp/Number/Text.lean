import ScopedLisp.Number.Shortest

/-!
# ScopedLisp.Number.Text

Numbers as text.  An integer is written in decimal.  A double is written with the
fewest digits that read back: positionally, with at least one digit behind the
point, when its leading digit stands for one of 10 ^ -4 to 10 ^ 15, and otherwise
with an exponent of at least two digits and a sign.
-/

namespace ScopedLisp.Number

/-- Integers of more digits than this are neither read nor written. -/
def digitLimit : Nat := 4300

/-- The least natural number with too many digits to be written. -/
def unwritableFrom : Nat := power 10 digitLimit

/-- Has an integer too many digits to be written? -/
def isUnwritable (i : Int) : Bool := unwritableFrom ≤ i.natAbs

/-- The decimal digits of a natural number. -/
def natText (n : Nat) : List Char := Nat.toDigits 10 n

/-- An integer in decimal, with a minus sign where it is negative. -/
def intText (i : Int) : List Char := if i < 0 then '-' :: natText i.natAbs else natText i.natAbs

/-- The leading digit's exponents that are written positionally: from this one on ... -/
def positionalFrom : Int := -4

/-- ... and below this one. -/
def positionalBelow : Int := 16

/-- Digits with a point behind the first `n` of them, and a zero where nothing would follow it. -/
def pointAfter (n : Nat) (digits : List Char) : List Char :=
  let whole := digits.take n
  let fraction := digits.drop n
  whole ++ List.replicate (n - digits.length) '0' ++ '.' ::
    (if fraction.isEmpty then ['0'] else fraction)

/-- The digits `0.` and then as many zeros as it takes to have the leading digit at the
negative exponent `e`. -/
def behindPoint (e : Int) (digits : List Char) : List Char :=
  '0' :: '.' :: List.replicate (-e - 1).toNat '0' ++ digits

/-- A leading digit, the others behind a point, and the exponent with sign and two digits. -/
def scientific (e : Int) (digits : List Char) : List Char :=
  let exponent := natText e.natAbs
  let padded := if exponent.length < 2 then '0' :: exponent else exponent
  let fraction := digits.drop 1
  digits.take 1 ++ (if fraction.isEmpty then [] else '.' :: fraction) ++
    'e' :: (if e < 0 then '-' else '+') :: padded

/-- A positive decimal as text. -/
def decimalText (d : Shortest.Decimal) : List Char :=
  let digits := natText d.digits
  let e := d.exponent + digits.length - 1
  if positionalFrom ≤ e && e < positionalBelow then
    if 0 ≤ e then pointAfter (e.toNat + 1) digits else behindPoint e digits
  else scientific e digits

/-- A double as text. -/
def floatText (x : Float) : List Char :=
  match Binary64.view x with
  | .notANumber => ['n', 'a', 'n']
  | .infinite negative => (if negative then ['-'] else []) ++ ['i', 'n', 'f']
  | .finite negative significand exponent =>
    (if negative then ['-'] else []) ++
      if significand = 0 then ['0', '.', '0']
      else decimalText (Shortest.shortest significand exponent)

/-! ## Reading a decimal -/

/-- The double nearest to `± digits * 10 ^ exponent`.  Exponents so large that the result is
certainly infinite or zero are not computed with. -/
def floatOfDecimal (negative : Bool) (digits : Nat) (exponent : Int) : Float :=
  let infinity : Float := if negative then -1.0 / 0.0 else 1.0 / 0.0
  let magnitude := Shortest.digitCount digits + exponent
  if digits = 0 || magnitude < -400 then if negative then -0.0 else 0.0
  else if 400 < magnitude then infinity
  else
    (Binary64.ofRatio negative (digits * power 10 exponent) (power 10 (-exponent))).getD infinity

end ScopedLisp.Number
