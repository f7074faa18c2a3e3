import ScopedLisp.Value.Printer

/-!
# ScopedLisp.Heap.Binding

Frames as a host uses them: names come as values, and only symbols can be bound.  A
refused name changes nothing; of several entries those before the refused one are kept.
-/

namespace ScopedLisp.Heap

/-- The name that a symbol is; `verb` says in the error what was to be done with it. -/
def nameOf (heap : Heap) (verb : String) : Value → Except EvalError String
  | .symbol name => .ok name
  | v => (v.plain? heap).bind fun shown => .error (.unbindable verb shown)

/-- Give a symbol a value in a frame. -/
def define (heap : Heap) (f : FrameId) (name value : Value) : Except EvalError Heap :=
  (heap.nameOf "define" name).map fun name => heap.write f name value

/-- Give a symbol a value in a frame just made. -/
def bind (heap : Heap) (f : FrameId) (name value : Value) : Except EvalError Heap :=
  (heap.nameOf "bind" name).map fun name => heap.write f name value

/-- The name to search for, if the value is one.  Values that are no names are bound nowhere, but
those that can still be changed are not even searched for. -/
def keyOf : Value → Except EvalError (Option String)
  | .symbol name => .ok (some name)
  | v => if v.isChangeable then .error .changeableKey else .ok none

/-- The value that a symbol has as seen from a frame; nothing else has one. -/
def valueOf (heap : Heap) (f : FrameId) (name : Value) : Except EvalError Value := do
  match ← keyOf name with
  | some name => heap.lookup f name
  | none => throw (.unbound (← name.plain? heap))

/-- The nearest frame that holds a symbol. -/
def frameOf (heap : Heap) (f : FrameId) (name : Value) : Except EvalError (Option FrameId) :=
  return (← keyOf name).bind (heap.find? f)

/-- Does a frame itself hold a symbol? -/
def holdsValue (heap : Heap) (f : FrameId) (name : Value) : Except EvalError Bool :=
  return (← keyOf name).any (heap.holds f)

/-- Define entry after entry, up to the first refused name; its error, and what was defined. -/
def defineEach (heap : Heap) (f : FrameId) : List (Value × Value) → Option EvalError × Heap
  | [] => (none, heap)
  | (name, value) :: rest =>
    match heap.define f name value with
    | .ok heap => heap.defineEach f rest
    | .error error => (some error, heap)

/-- Put an entry into a mapping: in place where an equal name is present, at the end otherwise. -/
def insertEntry (name value : Value) : List (Value × Value) → List (Value × Value)
  | [] => [(name, value)]
  | (other, old) :: rest =>
    if other.equal name then (other, value) :: rest else (other, old) :: insertEntry name value rest

/-- Define all entries of a mapping, in which a name counts once: at its first place, with its
last value.  There is no mapping from names that can still be changed. -/
def update (heap : Heap) (f : FrameId) (entries : List (Value × Value)) :
    Option EvalError × Heap :=
  if entries.any (·.1.isChangeable) then (some .changeableKey, heap)
  else
    heap.defineEach f
      (entries.foldl (fun mapping (name, value) => insertEntry name value mapping) [])

end ScopedLisp.Heap
