import ScopedLisp.Heap
import ScopedLisp.Text.Quoted

/-!
# ScopedLisp.Value.Printer

Values as text, in three forms:

* `display` is what a program's user sees: `#t`, `3.0`, `#<lambda f (x)>`;
* `inspect` is what diagnostics quote, with the constructor of every foreign value:
  `Atom('x')`, `Symbol('x')`, `(1, 'two')`;
* `plain` is a name or a text as it stands, a closure as the `lambda` it was made by, and the
  diagnostic form of all else.

None of them is defined for integers of too many digits; `Value.isUnwritable` finds
those first, and the forms that end in `?` do.  `source?` is the source text of code, and
`describe` shows code in an error message.
-/

namespace ScopedLisp

namespace Value

/-- Texts with a separator between them. -/
def separated (separator : String) (texts : List String) : String := separator.intercalate texts

/-- The diagnostic form of a procedure. -/
def inspectProcedure : Procedure → String
  | .closure c =>
    "Lambda(" ++ c.name.getD "anonymous" ++ ", formals=[" ++
      separated ", " (c.formals.map Text.quoted) ++ "])"
  | .primitive name _ | .host name _ => "Builtin(" ++ Text.quoted name ++ ")"

mutual
/-- The diagnostic form of a value, in front of `rest`. -/
def inspectBefore (heap : Heap) : Value → List Char → List Char
  | .number n, rest => n.text.toList ++ rest
  | .bool b, rest => (if b then "True" else "False").toList ++ rest
  | .symbol name, rest => ("Symbol(" ++ Text.quoted name ++ ")").toList ++ rest
  | .procedure id, rest =>
    ((heap.procedures[id]?.map inspectProcedure).getD "").toList ++ rest
  | .unassigned, rest => "#<unassigned>".toList ++ rest
  | .nothing, rest => "None".toList ++ rest
  | .string text, rest => (Text.quoted text).toList ++ rest
  | .object _ shown, rest => shown.toList ++ rest
  | .atom text, rest => ("Atom(" ++ Text.quoted text ++ ")").toList ++ rest
  | .list items, rest =>
    -- one item alone is followed by a comma, so that it does not look merely parenthesised
    '(' :: inspectItemsBefore heap items
      ((if items.length = 1 then [','] else []) ++ ')' :: rest)
  | .array items, rest => '[' :: inspectItemsBefore heap items (']' :: rest)

/-- The diagnostic forms of a row of values with commas between them, in front of `rest`. -/
def inspectItemsBefore (heap : Heap) : List Value → List Char → List Char
  | [], rest => rest
  | [v], rest => inspectBefore heap v rest
  | v :: vs, rest => inspectBefore heap v (',' :: ' ' :: inspectItemsBefore heap vs rest)
end

/-- The diagnostic form of a value. -/
def inspect (heap : Heap) (v : Value) : String := String.ofList (inspectBefore heap v [])

/-- A procedure as a program's user sees it. -/
def displayProcedure : Procedure → String
  | .closure c =>
    "#<lambda " ++ (match c.name with | some name => name ++ " " | none => "") ++
      "(" ++ separated " " c.formals ++ ")>"
  | .primitive name _ | .host name _ => "#<builtin " ++ name ++ ">"

/-- A value as a program's user sees it. -/
def display (heap : Heap) : Value → String
  | .number n => n.text
  | .bool b => if b then "#t" else "#f"
  | .symbol name => name
  | .procedure id => (heap.procedures[id]?.map displayProcedure).getD ""
  | .unassigned => "#<unassigned>"
  | v => "#<python " ++ v.inspect heap ++ ">"

/-- A form of a value as text, refused where an integer has too many digits. -/
def guarded (v : Value) (text : String) : Except EvalError String :=
  if v.isUnwritable then .error .unwritable else .ok text

/-- A value as a program's user sees it, if it can be written. -/
def display? (heap : Heap) (v : Value) : Except EvalError String := v.guarded (v.display heap)

/-- The diagnostic form of a value, if it can be written. -/
def inspect? (heap : Heap) (v : Value) : Except EvalError String := v.guarded (v.inspect heap)

/-- The source text of code, if all of it is an expression. -/
def source? (heap : Heap) (v : Value) : Except EvalError String :=
  match v.toExpr with
  | .ok e => .ok e.toSource
  | .error part => (part.inspect? heap).bind fun shown => .error (.notExpression shown)

/-- Code in an error message: its source text, or its diagnostic form if any part of it is no
expression. -/
def describe (heap : Heap) (v : Value) : Except EvalError String :=
  match v.toExpr with
  | .ok e => .ok e.toSource
  | .error _ => v.inspect? heap

end Value

/-- A closure as the expression it was made by, in source text. -/
def Closure.source? (heap : Heap) (c : Closure) : Except EvalError String :=
  (c.body.source? heap).map fun body =>
    "(lambda (" ++ Value.separated " " c.formals ++ ") " ++ body ++ ")"

namespace Value

/-- A name or a text as it stands, a closure as the expression it was made by, and the diagnostic
form of all else. -/
def plain? (heap : Heap) (v : Value) : Except EvalError String :=
  match v with
  | .symbol text | .atom text | .string text => .ok text
  | v =>
    match heap.closure? v with
    | some c => c.source? heap
    | none => v.inspect? heap

/-- The nested calls that a plain form takes: those of source text for a closure, and one for each
level of lists in a diagnostic form. -/
def plainLevels (heap : Heap) (v : Value) : Nat :=
  match heap.closure? v with
  | some c => c.body.sourceLevels
  | none => v.height

end Value

namespace Heap

/-! ## Frames -/

/-- The slots of a frame between braces, with the diagnostic forms of the values. -/
def slotsText (heap : Heap) (f : FrameId) : Except EvalError String := do
  let slots ← (heap.slots f).mapM fun (name, value) => do return name ++ ": " ++ (← value.inspect? heap)
  return "\x7b" ++ Value.separated ", " slots ++ "\x7d"

/-- A frame's slots, with a mark that there is a frame around it. -/
def frameText (heap : Heap) (f : FrameId) : Except EvalError String := do
  return (← heap.slotsText f) ++ (if (heap.parent? f).isSome then " -> ..." else "")

/-- The slots of every frame of a chain. -/
def chainText (heap : Heap) (f : FrameId) : Except EvalError String := do
  let frames ← (heap.chain f).mapM heap.slotsText
  return "<Environment chain: " ++ Value.separated " -> " frames ++ ">"

end Heap

end ScopedLisp
