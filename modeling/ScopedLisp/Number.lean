import ScopedLisp.Number.Text

/-!
# ScopedLisp.Number

Numbers: unbounded integers and doubles, one kind to a program.  They are ordered by
their exact values, whatever their representation: an integer is never rounded to be
compared.  In mixed arithmetic the integer is converted to the nearest double, which
fails where that lies beyond the largest one.
-/

namespace ScopedLisp

/-- A number: an integer of any size, or a double. -/
inductive Number where
  | int (value : Int)
  | float (value : Float)

namespace Number

instance : Inhabited Number := ⟨.int 0⟩

/-- The text of a number. -/
def text : Number → String
  | .int i => String.ofList (intText i)
  | .float x => String.ofList (floatText x)

/-! ## Order -/

/-- The exact value of a number, where it has one. -/
inductive Exact where
  | undefined
  | infinite (negative : Bool)
  /-- The value `significand * 2 ^ exponent`. -/
  | finite (significand exponent : Int)

/-- The exact value of a number. -/
def exact : Number → Exact
  | .int i => .finite i 0
  | .float x =>
    match Binary64.view x with
    | .notANumber => .undefined
    | .infinite negative => .infinite negative
    | .finite negative significand exponent =>
      .finite (if negative then -significand else significand) exponent

/-- The order of `a * 2 ^ x` and `b * 2 ^ y`, scaled to the smaller of the two exponents. -/
def compareScaled (a x b y : Int) : Ordering :=
  let least := min x y
  compare (a * power 2 (x - least)) (b * power 2 (y - least))

/-- The order of two exact values; none where one of them is undefined. -/
def Exact.order? : Exact → Exact → Option Ordering
  | .undefined, _ => none
  | _, .undefined => none
  | .infinite a, .infinite b => some (if a = b then .eq else if a then .lt else .gt)
  | .infinite negative, .finite .. => some (if negative then .lt else .gt)
  | .finite .., .infinite negative => some (if negative then .gt else .lt)
  | .finite a x, .finite b y => some (compareScaled a x b y)

/-- The order of two numbers by exact value; none where one of them is not a number. -/
def order? (a b : Number) : Option Ordering := a.exact.order? b.exact

/-- Have two numbers the same value? -/
def eq (a b : Number) : Bool := order? a b == some .eq

/-- Is the first number smaller? -/
def lt (a b : Number) : Bool := order? a b == some .lt

/-- Is the first number smaller, or equal? -/
def le (a b : Number) : Bool := lt a b || eq a b

/-- Is the value zero, of either sign? -/
def isZero : Number → Bool
  | .int i => i == 0
  | x@(.float _) => x.eq (.int 0)

/-- The first of the smallest among `first` and the others. -/
def minimum (first : Number) (others : List Number) : Number :=
  others.foldl (fun least x => if lt x least then x else least) first

/-- The first of the largest among `first` and the others. -/
def maximum (first : Number) (others : List Number) : Number :=
  others.foldl (fun greatest x => if lt greatest x then x else greatest) first

/-! ## Arithmetic -/

/-- Why an arithmetic operation has no result. -/
inductive Failure where
  /-- An integer in mixed arithmetic is beyond the largest double. -/
  | integerTooLarge
  /-- The inexact quotient of two integers is beyond the largest double. -/
  | quotientTooLarge
  | divisionByZero
  deriving DecidableEq, Repr

/-- The double that stands for a number in mixed arithmetic. -/
def toFloat : Number → Except Failure Float
  | .float x => .ok x
  | .int i =>
    match Binary64.ofInt? i with
    | some x => .ok x
    | none => .error .integerTooLarge

/-- An operation that is exact on two integers and rounds elsewhere. -/
def combine (onInts : Int → Int → Int) (onFloats : Float → Float → Float) :
    Number → Number → Except Failure Number
  | .int a, .int b => .ok (.int (onInts a b))
  | a, b => do
    let x ← a.toFloat
    let y ← b.toFloat
    return .float (onFloats x y)

def add : Number → Number → Except Failure Number := combine (· + ·) (· + ·)

def sub : Number → Number → Except Failure Number := combine (· - ·) (· - ·)

def mul : Number → Number → Except Failure Number := combine (· * ·) (· * ·)

def neg : Number → Number
  | .int i => .int (-i)
  | .float x => .float (-x)

def abs : Number → Number
  | .int i => .int i.natAbs
  | .float x => .float x.abs

/-- The double nearest to the quotient of two integers. -/
def inexactQuotient (a b : Int) : Except Failure Number :=
  match Binary64.ofRatio ((a < 0) != (b < 0)) a.natAbs b.natAbs with
  | some x => .ok (.float x)
  | none => .error .quotientTooLarge

/-- One division: exact where an integer divides an integer, a double elsewhere. -/
def div (a b : Number) : Except Failure Number :=
  if b.isZero then .error .divisionByZero
  else match a, b with
    | .int x, .int y => if x % y = 0 then .ok (.int (x / y)) else inexactQuotient x y
    | a, b => combine (· / ·) (· / ·) a b

/-- The sum from left to right, from the integer 0 on. -/
def sum (xs : List Number) : Except Failure Number := xs.foldlM add (.int 0)

/-- The product from left to right, from the integer 1 on. -/
def product (xs : List Number) : Except Failure Number := xs.foldlM mul (.int 1)

/-- Subtract each of the others from `first`. -/
def difference (first : Number) (others : List Number) : Except Failure Number :=
  others.foldlM sub first

/-- Divide `first` by each of the others. -/
def quotient (first : Number) (others : List Number) : Except Failure Number :=
  others.foldlM div first

end Number

end ScopedLisp
