import Mathlib.Logic.Equiv.Basic
import ScopedLisp.Evaluation.Call
import ScopedLisp.Proofs.Form.Pairs
import ScopedLisp.Proofs.Heap.Growth

/-!
# ScopedLisp.Proofs.Heap.Respelling

Other names for everything.  A `NameChange` gives each text another one, so that different texts stay
different; literals, the words of the forms and `else` stay what they are.  Code, closures, frames and
heaps can be respelled by it, and what is done to a heap can be done to the respelled heap as well, under
the other names.

Values in the slots of frames are not respelled: the name of a primitive, or of the symbol `nil`, is no
name that a program binds.
-/

namespace ScopedLisp

/-! ## Changes of names -/

/-- A text with a meaning of its own: a literal, the word of a form, or `else`. -/
def Reserved (text : String) : Prop :=
  (Literal.ofText text).isName = false ∨ (Keyword.ofName? text).isSome ∨ text = "else"

instance (text : String) : Decidable (Reserved text) := inferInstanceAs (Decidable (_ ∨ _ ∨ _))

/-- Another text for each text.  Different texts stay different, and reserved ones stay the same. -/
structure NameChange where
  apply : String → String
  injective : Function.Injective apply
  reserved {text : String} : Reserved text → apply text = text

namespace NameChange

/-- Two names that are not reserved change places. -/
def swap (s t : String) (hs : ¬Reserved s) (ht : ¬Reserved t) : NameChange where
  apply := Equiv.swap s t
  injective := (Equiv.swap s t).injective
  reserved {text} h := by
    refine Equiv.swap_apply_of_ne_of_ne ?_ ?_
    · rintro rfl
      exact hs h
    · rintro rfl
      exact ht h

variable (r : NameChange) {s t : String}

/-- A text that is not reserved is changed to one that is not. -/
theorem not_reserved_apply (h : ¬Reserved s) : ¬Reserved (r.apply s) := by
  intro reserved
  have same := r.injective (r.reserved reserved)
  exact h (same ▸ reserved)

/-- A text that is not reserved is no literal. -/
theorem ofText_of_not_reserved (h : ¬Reserved s) : Literal.ofText s = .name := by
  cases hs : Literal.ofText s with
  | name => rfl
  | _ => exact absurd (Or.inl (by rw [hs]; rfl)) h

/-- A change of names makes no literal and unmakes none. -/
theorem ofText_apply (s : String) : Literal.ofText (r.apply s) = Literal.ofText s := by
  by_cases h : Reserved s
  · rw [r.reserved h]
  · rw [ofText_of_not_reserved h, ofText_of_not_reserved (r.not_reserved_apply h)]

/-- A text that is not reserved begins no form. -/
theorem ofName?_of_not_reserved (h : ¬Reserved s) : Keyword.ofName? s = none := by
  cases hs : Keyword.ofName? s with
  | none => rfl
  | some keyword => exact absurd (Or.inr (Or.inl (by rw [hs]; rfl))) h

/-- A change of names makes no form and unmakes none. -/
theorem ofName?_apply (s : String) : Keyword.ofName? (r.apply s) = Keyword.ofName? s := by
  by_cases h : Reserved s
  · rw [r.reserved h]
  · rw [ofName?_of_not_reserved h, ofName?_of_not_reserved (r.not_reserved_apply h)]

/-- The word `else` keeps its meaning in a clause. -/
theorem apply_else : r.apply "else" = "else" := r.reserved (Or.inr (Or.inr rfl))

/-- The word that a body of several expressions is put behind keeps its meaning. -/
theorem apply_begin : r.apply "begin" = "begin" := r.reserved (Or.inr (Or.inl rfl))

/-- Each text stands for the one that it is changed to. -/
def respelling : Respelling where
  text s t := t = r.apply s
  literal h := by rw [h, r.ofText_apply]
  keyword h := by rw [h, r.ofName?_apply]
  isElse {s t} h := by
    rw [h]
    nth_rewrite 2 [← r.apply_else]
    exact r.injective.eq_iff.symm
  biUnique := ⟨fun _ _ _ h h' => r.injective (h.symm.trans h'), fun _ _ _ h h' => h.trans h'.symm⟩

end NameChange

/-! ## Respelled code -/

mutual
/-- Code with other names. -/
def Value.respell (r : NameChange) : Value → Value
  | .atom text => .atom (r.apply text)
  | .list items => .list (respellItems r items)
  | .array items => .array (respellItems r items)
  | v => v

/-- A row of code with other names. -/
def Value.respellItems (r : NameChange) : List Value → List Value
  | [] => []
  | v :: vs => v.respell r :: respellItems r vs
end

namespace Value

variable (r : NameChange)

/-- Rows of code are respelled item by item. -/
theorem respellItems_eq_map (vs : List Value) : respellItems r vs = vs.map (respell r) := by
  induction vs with
  | nil => rfl
  | cons v vs ih => rw [respellItems, ih, List.map_cons]

mutual
/-- Other names make nothing writable that was not. -/
theorem isUnwritable_respell : ∀ v : Value, (v.respell r).isUnwritable = v.isUnwritable
  | .list items => areUnwritable_respell items
  | .array items => areUnwritable_respell items
  | .number _ | .bool _ | .symbol _ | .procedure _ | .unassigned | .nothing | .string _ | .object ..
  | .atom _ => rfl

/-- Rows are as writable as their items are. -/
theorem areUnwritable_respell : ∀ vs : List Value, areUnwritable (respellItems r vs) = areUnwritable vs
  | [] => rfl
  | v :: vs => congrArg₂ or (isUnwritable_respell v) (areUnwritable_respell vs)
end

/-- A row is one of expressions if its first item is an expression and the others are. -/
theorem isOk_toExprs_cons (v : Value) (vs : List Value) :
    (toExprs (v :: vs)).isOk = (v.toExpr.isOk && (toExprs vs).isOk) := by
  rw [toExprs]
  cases v.toExpr with
  | error part => rfl
  | ok e => cases toExprs vs <;> rfl

mutual
/-- Nor do they make an expression of what is none. -/
theorem isOk_toExpr_respell : ∀ v : Value, (v.respell r).toExpr.isOk = v.toExpr.isOk
  | .list items => by
      have items := isOk_toExprs_respell items
      simp only [respell, toExpr]
      revert items
      cases toExprs (respellItems r _) <;> cases toExprs _ <;> exact id
  | .array _ | .number _ | .bool _ | .symbol _ | .procedure _ | .unassigned | .nothing | .string _
  | .object .. | .atom _ => rfl

theorem isOk_toExprs_respell : ∀ vs : List Value, (toExprs (respellItems r vs)).isOk = (toExprs vs).isOk
  | [] => rfl
  | v :: vs => by
      rw [respellItems, isOk_toExprs_cons, isOk_toExprs_cons, isOk_toExpr_respell v,
        isOk_toExprs_respell vs]
end

end Value

/-! ## Respelled heaps -/

/-- A frame with other names for its slots. -/
def Frame.respell (r : NameChange) (frame : Frame) : Frame :=
  { frame with slots := frame.slots.map fun (name, value) => (r.apply name, value) }

/-- A closure with other names in its code, and another name of its own. -/
def Closure.respell (r : NameChange) (c : Closure) : Closure :=
  ⟨c.formals.map r.apply, c.body.respell r, c.env, c.name.map r.apply⟩

/-- Primitives and procedures of a host stay as they are. -/
def Procedure.respell (r : NameChange) : Procedure → Procedure
  | .closure c => .closure (c.respell r)
  | other => other

/-- A heap with other names. -/
def Heap.respell (r : NameChange) (heap : Heap) : Heap :=
  ⟨heap.frames.map (Frame.respell r), heap.procedures.map (Procedure.respell r)⟩

variable (r : NameChange)

namespace Frame

/-- Under the other names the same values are found, since no two names become one. -/
theorem lookup_respell (name : String) (slots : List (String × Value)) :
    (slots.map fun (name, value) => (r.apply name, value)).lookup (r.apply name) = slots.lookup name := by
  induction slots with
  | nil => rfl
  | cons slot slots ih =>
      obtain ⟨other, value⟩ := slot
      have same : (r.apply name == r.apply other) = (name == other) := by
        rw [Bool.eq_iff_iff, beq_iff_eq, beq_iff_eq, r.injective.eq_iff]
      simp only [List.map_cons, List.lookup_cons, same, ih]

/-- A respelled frame holds under the other name what the frame holds under the name. -/
theorem get?_respell (frame : Frame) (name : String) :
    (frame.respell r).get? (r.apply name) = frame.get? name :=
  lookup_respell r name frame.slots

/-- A write under the other name goes to the same place. -/
theorem setSlot_respell (name : String) (v : Value) (slots : List (String × Value)) :
    (setSlot name v slots).map (fun (name, value) => (r.apply name, value)) =
      setSlot (r.apply name) v (slots.map fun (name, value) => (r.apply name, value)) := by
  induction slots with
  | nil => rfl
  | cons slot slots ih =>
      obtain ⟨other, value⟩ := slot
      simp only [setSlot, List.map_cons, r.injective.eq_iff]
      split
      · rfl
      · rw [List.map_cons, ih]

/-- To write and to respell is to respell and to write under the other name. -/
theorem respell_set (frame : Frame) (name : String) (v : Value) :
    (frame.set name v).respell r = (frame.respell r).set (r.apply name) v := by
  simp only [set, respell, setSlot_respell]

end Frame

namespace Heap

variable {heap : Heap} {f : FrameId} {name : String} {v : Value}

theorem getElem?_frames_respell (heap : Heap) (f : FrameId) :
    (heap.respell r).frames[f]? = heap.frames[f]?.map (Frame.respell r) :=
  Array.getElem?_map

theorem getElem?_procedures_respell (heap : Heap) (id : ProcedureId) :
    (heap.respell r).procedures[id]? = heap.procedures[id]?.map (Procedure.respell r) :=
  Array.getElem?_map

/-- Frames keep their addresses and parents, so chains stay what they are. -/
theorem chain_respell (heap : Heap) (f : FrameId) : (heap.respell r).chain f = heap.chain f := by
  refine chain_congr (fun f => ?_) f
  rw [getElem?_frames_respell, Option.map_map]
  rfl

/-- What a respelled heap holds under the other name is what the heap holds under the name. -/
theorem get?_respell (heap : Heap) (f : FrameId) (name : String) :
    (heap.respell r).get? f (r.apply name) = heap.get? f name := by
  simp only [get?, getElem?_frames_respell]
  cases heap.frames[f]? with
  | none => rfl
  | some frame => exact frame.get?_respell r name

/-- The other name is found in the same frame of the respelled heap. -/
theorem find?_respell (heap : Heap) (f : FrameId) (name : String) :
    (heap.respell r).find? f (r.apply name) = heap.find? f name := by
  simp only [find?_eq_chain_find?, holds, chain_respell, get?_respell]

/-- A value is applied as the respelled procedure at its address. -/
theorem procedure?_respell (heap : Heap) (v : Value) :
    (heap.respell r).procedure? v = (heap.procedure? v).map (Procedure.respell r) := by
  cases v with
  | procedure id => exact getElem?_procedures_respell r heap id
  | _ => rfl

/-- To respell a new frame is to make it with the other names. -/
theorem respell_newFrame (heap : Heap) (parent : Option FrameId) (slots : List (String × Value)) :
    (heap.newFrame parent slots).2.respell r =
      ((heap.respell r).newFrame parent (slots.map fun (name, value) => (r.apply name, value))).2 := by
  simp only [newFrame, respell, Array.map_push, Frame.respell]

/-- To respell a new closure is to make it of respelled code. -/
theorem respell_newClosure (heap : Heap) (c : Closure) :
    (heap.newProcedure (.closure c)).2.respell r =
      ((heap.respell r).newProcedure (.closure (c.respell r))).2 := by
  simp only [newProcedure, respell, Array.map_push, Procedure.respell]

/-- To respell after a write is to write under the other name. -/
theorem respell_write (heap : Heap) (f : FrameId) (name : String) (v : Value) :
    (heap.write f name v).respell r = (heap.respell r).write f (r.apply name) v := by
  simp only [write, respell]
  congr 1
  refine Array.ext_getElem? fun i => ?_
  simp only [Array.getElem?_map, Array.getElem?_modify]
  split <;> simp [Function.comp_def, Frame.respell_set]

/-- To respell after a closure is named is to give it the other name. -/
theorem respell_nameClosure (heap : Heap) (id : ProcedureId) (name : String) :
    (heap.nameClosure id name).respell r = (heap.respell r).nameClosure id (r.apply name) := by
  simp only [nameClosure, respell]
  congr 1
  refine Array.ext_getElem? fun i => ?_
  simp only [Array.getElem?_map, Array.getElem?_modify]
  split
  · simp only [Option.map_map]
    congr 1
    funext p
    cases p <;> rfl
  · rfl

end Heap

/-- A closure waits for its name in one heap if it does in the other. -/
theorem Form.isFresh_respell (heap : Heap) (f : FrameId) (v : Value) :
    isFresh (heap.respell r) f v = isFresh heap f v := by
  simp only [isFresh, Heap.closure?, Heap.procedure?_respell]
  cases heap.procedure? v with
  | none => rfl
  | some p =>
      cases p with
      | closure c => cases hc : c.name <;> simp [Procedure.respell, Closure.respell, hc]
      | _ => rfl

end ScopedLisp
