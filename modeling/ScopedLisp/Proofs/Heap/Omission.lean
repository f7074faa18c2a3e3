import ScopedLisp.Evaluation.Call
import ScopedLisp.Proofs.Heap.Growth

/-!
# ScopedLisp.Proofs.Heap.Omission

A heap with one slot left out.  `Heap.without f name` is the heap without the slots of one name in one
frame.  For every other name it is as good as the whole heap: it is looked up alike, and to write it or
to make a frame can be done before the slot is left out as well as after it.

Texts of values and answers of primitives depend on the procedures of a heap alone, and these are not
touched.
-/

namespace ScopedLisp

variable {heap heap' : Heap} {f g : FrameId} {name other : String} {v : Value}

/-! ## What depends on the procedures alone -/

namespace Value

mutual

/-- The diagnostic form of a value depends on the procedures of the heap alone. -/
theorem inspectBefore_congr (same : heap.procedures = heap'.procedures) :
    ∀ (v : Value) (rest : List Char), inspectBefore heap v rest = inspectBefore heap' v rest
  | .list items, _ => congrArg ('(' :: ·) (inspectItemsBefore_congr same items _)
  | .array items, _ => congrArg ('[' :: ·) (inspectItemsBefore_congr same items _)
  | .procedure id, rest =>
      congrArg (fun ps : Array Procedure => ((ps[id]?.map inspectProcedure).getD "").toList ++ rest) same
  | .number _, _ | .bool _, _ | .symbol _, _ | .unassigned, _ | .nothing, _ | .string _, _
  | .object .., _ | .atom _, _ => rfl

theorem inspectItemsBefore_congr (same : heap.procedures = heap'.procedures) :
    ∀ (vs : List Value) (rest : List Char),
      inspectItemsBefore heap vs rest = inspectItemsBefore heap' vs rest
  | [], _ => rfl
  | v :: vs, rest => by
      have first := inspectBefore_congr same v
      have others := inspectItemsBefore_congr same vs
      cases vs with
      | nil => exact first rest
      | cons w vs => simp only [inspectItemsBefore, first, others]
end

theorem inspect?_congr (same : heap.procedures = heap'.procedures) (v : Value) :
    v.inspect? heap = v.inspect? heap' := by
  simp only [inspect?, inspect, inspectBefore_congr same]

/-- What a user sees of a value depends on the procedures alone. -/
theorem display?_congr (same : heap.procedures = heap'.procedures) (v : Value) :
    v.display? heap = v.display? heap' := by
  cases v <;> simp only [display?, display, inspect, inspectBefore_congr same, same]

/-- What an error message quotes depends on the procedures alone. -/
theorem describe_congr (same : heap.procedures = heap'.procedures) (v : Value) :
    v.describe heap = v.describe heap' := by
  simp only [describe, inspect?_congr same]

end Value

namespace Primitive

/-- Whether arguments are numbers depends on the heap only where one that is none has to be shown. -/
theorem numbers_congr (same : heap.procedures = heap'.procedures) (p : Primitive) (args : List Value) :
    numbers heap p args = numbers heap' p args := by
  fun_induction numbers heap p args with
  | case1 => rfl
  | case2 n vs ih => simp only [numbers, ih]
  | case3 => simp only [numbers, Value.display?_congr same]

theorem integers_congr (same : heap.procedures = heap'.procedures) (p : Primitive) (args : List Value) :
    integers heap p args = integers heap' p args := by
  fun_induction integers heap p args with
  | case1 => rfl
  | case2 n vs ih => simp only [integers, ih]
  | case3 => simp only [integers, Value.display?_congr same]

/-- What a primitive answers depends on the procedures of the heap alone. -/
theorem apply_congr (same : heap.procedures = heap'.procedures) (p : Primitive) (args : List Value) :
    p.apply heap args = p.apply heap' args := by
  simp only [apply, compute, numbers_congr same, integers_congr same]

end Primitive

namespace Heap

/-- What a value is when it is applied depends on the procedures alone. -/
theorem procedure?_congr (same : heap.procedures = heap'.procedures) (v : Value) :
    heap.procedure? v = heap'.procedure? v := by
  cases v <;> simp only [procedure?, same]

end Heap

/-- Whether a value is a closure that waits for its name depends on the procedures alone. -/
theorem Form.isFresh_congr (same : heap.procedures = heap'.procedures) (f : FrameId) (v : Value) :
    isFresh heap f v = isFresh heap' f v := by
  simp only [isFresh, Heap.closure?, Heap.procedure?_congr same]

/-! ## Leaving out a slot -/

/-- A frame without the slots of one name. -/
def Frame.without (frame : Frame) (name : String) : Frame :=
  { frame with slots := frame.slots.filter (·.1 != name) }

namespace Frame

@[simp] theorem parent_without (frame : Frame) (name : String) :
    (frame.without name).parent = frame.parent := rfl

/-- Leaving out the slots of one name changes what is found under no other. -/
theorem lookup_filter_ne (ne : other ≠ name) (slots : List (String × Value)) :
    (slots.filter (·.1 != name)).lookup other = slots.lookup other := by
  induction slots with
  | nil => rfl
  | cons slot slots ih => grind

/-- A frame without a slot holds the others as before. -/
theorem get?_without (frame : Frame) (ne : other ≠ name) :
    (frame.without name).get? other = frame.get? other :=
  lookup_filter_ne ne frame.slots

/-- Slots of another name are written alike with the slots of a name and without them. -/
theorem filter_setSlot (ne : other ≠ name) (v : Value) (slots : List (String × Value)) :
    (setSlot other v slots).filter (·.1 != name) = setSlot other v (slots.filter (·.1 != name)) := by
  induction slots with
  | nil => simp [setSlot, ne]
  | cons slot slots ih => grind [setSlot]

/-- A frame is written to under another name alike with the slot and without it. -/
theorem without_set (frame : Frame) (ne : other ≠ name) (v : Value) :
    (frame.set other v).without name = (frame.without name).set other v := by
  simp only [without, set, filter_setSlot ne]

/-- A write under the name that is left out leaves no trace. -/
theorem filter_setSlot_self (name : String) (v : Value) (slots : List (String × Value)) :
    (setSlot name v slots).filter (·.1 != name) = slots.filter (·.1 != name) := by
  induction slots with
  | nil => simp [setSlot]
  | cons slot slots ih => grind [setSlot]

/-- What is left out may as well be written before. -/
theorem without_set_self (frame : Frame) (name : String) (v : Value) :
    (frame.set name v).without name = frame.without name := by
  simp only [without, set, filter_setSlot_self]

end Frame

namespace Heap

/-- The heap without the slots of one name in one frame. -/
def without (heap : Heap) (f : FrameId) (name : String) : Heap :=
  { heap with frames := heap.frames.modify f (·.without name) }

@[simp] theorem size_frames_without : (heap.without f name).frames.size = heap.frames.size := by
  simp [without]

@[simp] theorem procedures_without : (heap.without f name).procedures = heap.procedures := rfl

/-- Leaving out a slot changes no chain. -/
theorem chain_without (heap : Heap) (f : FrameId) (name : String) (g : FrameId) :
    (heap.without f name).chain g = heap.chain g := by
  refine chain_congr (fun g => ?_) g
  simp only [without, Array.getElem?_modify]
  split
  · rw [Option.map_map]
    rfl
  · rfl

/-- Leaving out a slot changes nothing that a frame holds under other names. -/
theorem get?_without (heap : Heap) (f g : FrameId) (ne : other ≠ name) :
    (heap.without f name).get? g other = heap.get? g other := by
  simp only [get?, without, Array.getElem?_modify]
  split
  · cases heap.frames[g]? with
    | none => rfl
    | some frame => exact frame.get?_without ne
  · rfl

/-- Leaving out a slot changes nothing that other names mean, as seen from any frame. -/
theorem lookup_without (heap : Heap) (f g : FrameId) (ne : other ≠ name) :
    (heap.without f name).lookup g other = heap.lookup g other := by
  simp only [lookup, find?_eq_chain_find?, holds, chain_without, get?_without heap f _ ne]

/-- Other names are written alike with the slot and without it. -/
theorem without_write (heap : Heap) (f g : FrameId) (ne : other ≠ name) (v : Value) :
    (heap.write g other v).without f name = (heap.without f name).write g other v := by
  simp only [without, write]
  congr 1
  refine Array.ext_getElem? fun i => ?_
  simp only [Array.getElem?_modify]
  split <;> split <;> simp [Function.comp_def, Frame.without_set _ ne]

/-- A write to the slot itself is not seen where the slot is left out. -/
theorem without_write_self (heap : Heap) (f : FrameId) (name : String) (v : Value) :
    (heap.write f name v).without f name = heap.without f name := by
  simp only [without, write]
  congr 1
  refine Array.ext_getElem? fun i => ?_
  simp only [Array.getElem?_modify]
  split <;> simp [Function.comp_def, Frame.without_set_self]

/-- New frames come to be as before. -/
theorem without_newFrame (lt : f < heap.frames.size) (parent : Option FrameId)
    (slots : List (String × Value)) :
    (heap.newFrame parent slots).2.without f name =
      ((heap.without f name).newFrame parent slots).2 := by
  simp only [without, newFrame]
  congr 1
  refine Array.ext_getElem? fun i => ?_
  simp only [Array.getElem?_modify, Array.getElem?_push, Array.size_modify]
  grind

end Heap

end ScopedLisp
