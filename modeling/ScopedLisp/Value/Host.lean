import ScopedLisp.Heap

/-!
# ScopedLisp.Value.Host

What a host can ask of a value besides its text: to be hashed, as a name to search for is, and to
let one of its attributes be set.

A number is hashed by its exact value modulo the prime `2 ^ 61 - 1`.  A power of two counts there
by its exponent modulo 61 alone, for `2 ^ 61` leaves 1; so doubles need no other rule than
integers, and what is equal as a number has one hash whatever its representation.  How texts,
rows of hashes and addresses are hashed is the host's own affair, and differs from one run of it
to the next: all that can be relied on is that the same ones always hash alike.
-/

namespace ScopedLisp

/-! ## Hashes -/

namespace Number

/-- The modulus of the hashes of numbers. -/
def hashModulus : Nat := power 2 61 - 1

/-- The hash of an exact value.  One hash is kept free for failures of the host. -/
def Exact.hash : Exact → Int
  | .undefined => 0
  | .infinite negative => if negative then -314159 else 314159
  | .finite significand exponent =>
    let residue : Int := (significand.natAbs * power 2 (exponent % 61) % hashModulus : Nat)
    let signed := if significand < 0 then -residue else residue
    if signed = -1 then -2 else signed

end Number

namespace Value

/-- The hash of a text. -/
def textHash (text : String) : Int := (hash text).toNat

/-- The hash of a row of hashes. -/
def rowHash (hashes : List Int) : Int := (hash hashes).toNat

/-- The hash of what is equal to itself alone, by its kind and its address. -/
def addressHash (kind : String) (address : Nat) : Int := rowHash [textHash kind, address]

mutual
/-- The hash of a value, unless a part of it can still be changed. -/
def hash? : Value → Except EvalError Int
  | .number n => .ok n.exact.hash
  | .bool b => .ok (if b then 1 else 0)
  | .symbol text | .string text => .ok (textHash text)
  | .atom text => .ok (rowHash [textHash "Atom", textHash text])
  | .procedure id => .ok (addressHash "procedure" id)
  | .object id _ => .ok (addressHash "object" id)
  | .unassigned => .ok (addressHash "unassigned" 0)
  | .nothing => .ok (addressHash "nothing" 0)
  | .list items => (hashes? items).map rowHash
  | .array _ => .error .changeableKey

/-- The hashes of a row of values. -/
def hashes? : List Value → Except EvalError (List Int)
  | [] => .ok []
  | v :: vs => do return (← hash? v) :: (← hashes? vs)
end

/-- Do two values hash alike if they are equal? -/
def hashesAlike (a b : Value) : Except EvalError Bool := do
  if a.equal b then return (← a.hash?) == (← b.hash?) else return true

/-! ## Attributes -/

/-- The host's name for the kind of a value. -/
def typeName (heap : Heap) (v : Value) : String :=
  match v with
  | .number (.int _) => "int"
  | .number (.float _) => "float"
  | .bool _ => "bool"
  | .symbol _ => "Symbol"
  | .procedure _ => if (heap.closure? v).isSome then "Lambda" else "Builtin"
  | .unassigned => "_Unassigned"
  | .nothing => "NoneType"
  | .string _ => "str"
  | .object .. => "function"
  | .atom _ => "Atom"
  | .list _ => "tuple"
  | .array _ => "list"

/-- The attributes of a value that can be set: the parts that a procedure is made of. -/
def settable (heap : Heap) (v : Value) : List String :=
  match heap.procedure? v with
  | some (.closure _) => ["formals", "body", "env", "name"]
  | some _ => ["name", "fn"]
  | none => []

/-- Why an attribute of a value cannot be set, if it cannot.  Symbols and atoms refuse any name, all
other values those of attributes that they do not have. -/
def attributeError? (heap : Heap) (v : Value) (name : String) : Option EvalError :=
  let refusal (message : String) := some (.host "AttributeError" message)
  match v with
  | .symbol _ | .atom _ => refusal (v.typeName heap ++ " is immutable")
  | v =>
    if name ∈ v.settable heap then none
    else refusal ("'" ++ v.typeName heap ++ "' object has no attribute '" ++ name ++ "'")

end Value

end ScopedLisp
