import ScopedLisp.Error
import ScopedLisp.Primitive
import ScopedLisp.Value

/-!
# ScopedLisp.Heap

What programs share and change: frames and procedures, each known by its address.

* A *frame* holds names in the order in which they were first written, and its parent.
  The *chain* of a frame is the frame itself, its parent and so on up to the root; a
  name means what the first frame of the chain that holds it says.
* A *procedure* is a closure, a primitive or a procedure of the host.  Procedures are
  equal only to themselves, so they too live at addresses.

A parent is always older than its frames.  A walk outward therefore comes by no more frames
than the address it starts from and one, and that is the bound it is given.  Each question
about a chain is a walk of its own: the nearest frame with a name, the outermost frame, the
number of frames.
-/

namespace ScopedLisp

/-- The address of a frame in the heap. -/
abbrev FrameId := Nat

/-! ## Frames -/

/-- Names with their values, in the order of their first writing, and the frame around. -/
structure Frame where
  parent : Option FrameId
  slots : List (String × Value)
  deriving Inhabited

namespace Frame

/-- The value of a name in this frame alone. -/
def get? (frame : Frame) (name : String) : Option Value := frame.slots.lookup name

/-- Does this frame itself hold a name? -/
def holds (frame : Frame) (name : String) : Bool := (frame.get? name).isSome

/-- The names of a frame, in the order of their first writing. -/
def names (frame : Frame) : List String := frame.slots.map (·.1)

/-- Write a slot: in place where the name is held already, behind all others where it is not. -/
def setSlot (name : String) (value : Value) : List (String × Value) → List (String × Value)
  | [] => [(name, value)]
  | (other, old) :: rest =>
    if other = name then (name, value) :: rest else (other, old) :: setSlot name value rest

/-- Write slot after slot. -/
def setAll (entries slots : List (String × Value)) : List (String × Value) :=
  entries.foldl (fun slots entry => setSlot entry.1 entry.2 slots) slots

/-- Give a name a value in this frame. -/
def set (frame : Frame) (name : String) (value : Value) : Frame :=
  { frame with slots := setSlot name value frame.slots }

@[simp] theorem parent_set (frame : Frame) (name : String) (value : Value) :
    (frame.set name value).parent = frame.parent := rfl

private theorem lookup_setSlot (name other : String) (value : Value) (slots : List (String × Value)) :
    (setSlot name value slots).lookup other =
      if other = name then some value else slots.lookup other := by
  induction slots with
  | nil => grind [setSlot]
  | cons slot rest ih => grind [setSlot]

/-- A written name has the value written last, every other name the value it had. -/
theorem get?_set (frame : Frame) (name other : String) (value : Value) :
    (frame.set name value).get? other = if other = name then some value else frame.get? other :=
  lookup_setSlot name other value frame.slots

private theorem names_setSlot (name : String) (value : Value) (slots : List (String × Value)) :
    (setSlot name value slots).map (·.1) =
      if name ∈ slots.map (·.1) then slots.map (·.1) else slots.map (·.1) ++ [name] := by
  induction slots with
  | nil => rfl
  | cons slot rest ih =>
    obtain ⟨other, old⟩ := slot
    by_cases h : other = name
    · simp [setSlot, h]
    · have h' : ¬name = other := fun e => h e.symm
      simp only [setSlot, h, if_false, List.map_cons, ih, List.mem_cons, h', false_or]
      split <;> rfl

/-- A name written for the first time comes last; writing again moves no name. -/
theorem names_set (frame : Frame) (name : String) (value : Value) :
    (frame.set name value).names =
      if name ∈ frame.names then frame.names else frame.names ++ [name] :=
  names_setSlot name value frame.slots

/-- A slot after a write is the written one or was there before. -/
theorem mem_setSlot {name : String} {value : Value} {slot : String × Value} {slots : List (String × Value)}
    (mem : slot ∈ setSlot name value slots) : slot = (name, value) ∨ slot ∈ slots := by
  induction slots with
  | nil => exact Or.inl (List.mem_singleton.mp mem)
  | cons other slots ih =>
    simp only [setSlot] at mem
    split at mem
    · rcases List.mem_cons.mp mem with eq | mem
      · exact Or.inl eq
      · exact Or.inr (List.mem_cons_of_mem _ mem)
    · rcases List.mem_cons.mp mem with eq | mem
      · exact Or.inr (eq ▸ List.mem_cons_self)
      · exact (ih mem).imp id (List.mem_cons_of_mem _)

/-- A slot after several writes is one of those written or was there before. -/
theorem mem_setAll {entries slots : List (String × Value)} {slot : String × Value}
    (mem : slot ∈ setAll entries slots) : slot ∈ entries ∨ slot ∈ slots := by
  induction entries generalizing slots with
  | nil => exact Or.inr mem
  | cons entry entries ih =>
    rcases ih mem with written | earlier
    · exact Or.inl (List.mem_cons_of_mem _ written)
    · rcases mem_setSlot earlier with rfl | before
      · exact Or.inl List.mem_cons_self
      · exact Or.inr before

/-- A name that the first slots do not hold is written behind them. -/
theorem setSlot_append {name : String} {before : List (String × Value)} (v : Value)
    (after : List (String × Value)) (new : name ∉ before.map (·.1)) :
    setSlot name v (before ++ after) = before ++ setSlot name v after := by
  induction before with
  | nil => rfl
  | cons slot before ih =>
    rw [List.map_cons, List.mem_cons, not_or] at new
    rw [List.cons_append, setSlot, if_neg (Ne.symm new.1), ih new.2]
    rfl

/-- To write distinct names that are not there is to add them. -/
theorem setAll_of_new {names : List String} (values : List Value) (before : List (String × Value))
    (distinct : (before.map (·.1) ++ names).Nodup) :
    setAll (names.zip values) before = before ++ names.zip values := by
  induction names generalizing values before with
  | nil => simp [setAll]
  | cons name names ih =>
    cases values with
    | nil => simp [setAll]
    | cons v values =>
      have new : name ∉ before.map (·.1) := fun mem =>
        (List.nodup_append.mp distinct).2.2 name mem name List.mem_cons_self rfl
      have added := setSlot_append v [] new
      rw [List.append_nil] at added
      have rest := ih values (before ++ [(name, v)]) (by simpa using distinct)
      rw [List.append_assoc] at rest
      rw [List.zip_cons_cons]
      change setAll _ (setSlot name v before) = _
      rw [added]
      exact rest

end Frame

/-! ## Procedures -/

/-- A procedure of the program: parameters, body, the frame it was made in, and the name that a
definition gave it. -/
structure Closure where
  formals : List String
  body : Value
  env : FrameId
  name : Option String
  deriving Inhabited

/-- What a procedure of the host asks of the interpreter: to answer at once, or to do one thing
in the frame of its caller and answer with the result. -/
inductive HostRequest where
  | answer (value : Value)
  | fail (error : EvalError)
  | lookup (name : String)
  /-- Bind a name in the caller's frame and answer `nil`. -/
  | define (name : String) (value : Value)
  /-- Count the frames from the caller's up to the root. -/
  | depth
  | apply (procedure : Value) (args : List Value)

/-- A procedure. -/
inductive Procedure where
  | closure (closure : Closure)
  | primitive (name : String) (primitive : Primitive)
  | host (name : String) (respond : List Value → HostRequest)

instance : Inhabited Procedure := ⟨.closure default⟩

/-! ## The heap -/

/-- All frames and procedures, by address. -/
structure Heap where
  frames : Array Frame
  procedures : Array Procedure

namespace Heap

/-- Nothing yet. -/
def empty : Heap := ⟨#[], #[]⟩

instance : Inhabited Heap := ⟨empty⟩

/-- A new frame with the given slots. -/
def newFrame (heap : Heap) (parent : Option FrameId) (slots : List (String × Value)) :
    FrameId × Heap :=
  (heap.frames.size, { heap with frames := heap.frames.push ⟨parent, slots⟩ })

/-- A new procedure. -/
def newProcedure (heap : Heap) (procedure : Procedure) : ProcedureId × Heap :=
  (heap.procedures.size, { heap with procedures := heap.procedures.push procedure })

/-- Give a name a value in one frame. -/
def write (heap : Heap) (frame : FrameId) (name : String) (value : Value) : Heap :=
  { heap with frames := heap.frames.modify frame (·.set name value) }

/-- Give a closure a name. -/
def nameClosure (heap : Heap) (id : ProcedureId) (name : String) : Heap :=
  { heap with procedures := heap.procedures.modify id fun
      | .closure c => .closure { c with name := some name }
      | other => other }

/-- The procedure that a value is. -/
def procedure? (heap : Heap) : Value → Option Procedure
  | .procedure id => heap.procedures[id]?
  | _ => none

/-- The closure that a value is. -/
def closure? (heap : Heap) (value : Value) : Option Closure :=
  match heap.procedure? value with
  | some (.closure c) => some c
  | _ => none

/-! ### Walking outward -/

/-- The first `fuel` frames of a chain. -/
def chainWithin (heap : Heap) : (fuel : Nat) → FrameId → List FrameId
  | 0, _ => []
  | fuel + 1, f =>
    match heap.frames[f]? with
    | none => []
    | some ⟨none, _⟩ => [f]
    | some ⟨some parent, _⟩ => f :: chainWithin heap fuel parent

/-- A frame and the frames around it, innermost first. -/
def chain (heap : Heap) (f : FrameId) : List FrameId := heap.chainWithin (f + 1) f

/-- The value of a name in one frame alone. -/
def get? (heap : Heap) (f : FrameId) (name : String) : Option Value :=
  heap.frames[f]?.bind (·.get? name)

/-- Does one frame itself hold a name? -/
def holds (heap : Heap) (f : FrameId) (name : String) : Bool := (heap.get? f name).isSome

/-- The parent of a frame. -/
def parent? (heap : Heap) (f : FrameId) : Option FrameId := heap.frames[f]?.bind (·.parent)

/-- The nearest frame that holds a name, among the first `fuel` frames outward. -/
def findWithin (heap : Heap) (name : String) : (fuel : Nat) → FrameId → Option FrameId
  | 0, _ => none
  | fuel + 1, f =>
    if heap.holds f name then some f
    else (heap.parent? f).bind (heap.findWithin name fuel)

/-- The nearest frame that holds a name. -/
def find? (heap : Heap) (f : FrameId) (name : String) : Option FrameId :=
  heap.findWithin name (f + 1) f

/-- The value of a name as seen from a frame: that of the nearest frame that holds it, unless it
waits to be assigned there. -/
def lookup (heap : Heap) (f : FrameId) (name : String) : Except EvalError Value :=
  match (heap.find? f name).bind (heap.get? · name) with
  | none => .error (.unbound name)
  | some .unassigned => .error (.unassigned name)
  | some value => .ok value

/-- The frame that `fuel` steps outward lead to, or fewer where a frame has no parent. -/
def rootWithin (heap : Heap) : (fuel : Nat) → FrameId → FrameId
  | 0, f => f
  | fuel + 1, f =>
    match heap.parent? f with
    | none => f
    | some parent => rootWithin heap fuel parent

/-- The outermost frame around a frame. -/
def root (heap : Heap) (f : FrameId) : FrameId := heap.rootWithin (f + 1) f

/-- The number of frames outward, of the first `fuel` of them. -/
def depthWithin (heap : Heap) : (fuel : Nat) → FrameId → Nat
  | 0, _ => 0
  | fuel + 1, f =>
    match heap.frames[f]? with
    | none => 0
    | some ⟨none, _⟩ => 1
    | some ⟨some parent, _⟩ => depthWithin heap fuel parent + 1

/-- The number of frames from this one to the root, both counted. -/
def depth (heap : Heap) (f : FrameId) : Nat := heap.depthWithin (f + 1) f

/-- The slots of a frame. -/
def slots (heap : Heap) (f : FrameId) : List (String × Value) :=
  (heap.frames[f]?.map (·.slots)).getD []

/-! ### Every walk goes along the chain -/

private theorem findWithin_eq_find? (heap : Heap) (name : String) (fuel : Nat) (f : FrameId) :
    heap.findWithin name fuel f = (heap.chainWithin fuel f).find? (heap.holds · name) := by
  induction fuel generalizing f with
  | zero => rfl
  | succ fuel ih =>
    unfold findWithin chainWithin
    match there : heap.frames[f]? with
    | none => simp [holds, get?, parent?, there]
    | some ⟨none, slots⟩ => by_cases h : heap.holds f name <;> simp [parent?, there, h]
    | some ⟨some parent, slots⟩ => by_cases h : heap.holds f name <;> simp [parent?, there, h, ih]

/-- The nearest frame that holds a name is the first one in the chain that does. -/
theorem find?_eq_chain_find? (heap : Heap) (f : FrameId) (name : String) :
    heap.find? f name = (heap.chain f).find? (heap.holds · name) :=
  heap.findWithin_eq_find? name (f + 1) f

theorem mem_chain_of_find? {heap : Heap} {f g : FrameId} {name : String}
    (found : heap.find? f name = some g) : g ∈ heap.chain f := by
  rw [find?_eq_chain_find?] at found
  exact List.mem_of_find?_eq_some found

private theorem depthWithin_eq_length (heap : Heap) (fuel : Nat) (f : FrameId) :
    heap.depthWithin fuel f = (heap.chainWithin fuel f).length := by
  induction fuel generalizing f with
  | zero => rfl
  | succ fuel ih =>
    unfold depthWithin chainWithin
    match heap.frames[f]? with
    | none => rfl
    | some ⟨none, slots⟩ => rfl
    | some ⟨some parent, slots⟩ => simp [ih]

/-- The depth of a frame is the length of its chain. -/
theorem depth_eq_chain_length (heap : Heap) (f : FrameId) :
    heap.depth f = (heap.chain f).length :=
  heap.depthWithin_eq_length (f + 1) f


/-! ### What writing and adding frames change -/

/-- Writing adds no frame. -/
@[simp] theorem size_frames_write (heap : Heap) (f : FrameId) (name : String) (value : Value) :
    (heap.write f name value).frames.size = heap.frames.size := by
  simp [write]

/-- Only the written slot of the written frame changes. -/
theorem get?_write (heap : Heap) (f g : FrameId) (name other : String) (value : Value) :
    (heap.write f name value).get? g other =
      if f = g ∧ g < heap.frames.size ∧ other = name then some value else heap.get? g other := by
  simp only [get?, write, Array.getElem?_modify]
  by_cases hf : f = g
  · subst hf
    by_cases hs : f < heap.frames.size
    · simp [hs, Frame.get?_set]
    · simp [hs]
  · simp [hf]

/-- No write changes what a frame is enclosed in. -/
@[simp] theorem parent?_write (heap : Heap) (f g : FrameId) (name : String) (value : Value) :
    (heap.write f name value).parent? g = heap.parent? g := by
  simp only [parent?, write, Array.getElem?_modify]
  by_cases hf : f = g
  · subst hf
    cases h : heap.frames[f]? <;> simp
  · simp [hf]

/-- A new frame holds its slots, and every other frame what it held before. -/
theorem get?_newFrame (heap : Heap) (parent : Option FrameId) (slots : List (String × Value))
    (g : FrameId) (name : String) :
    (heap.newFrame parent slots).2.get? g name =
      if g = heap.frames.size then slots.lookup name else heap.get? g name := by
  simp only [get?, newFrame, Array.getElem?_push]
  split <;> rfl

/-! ### Standard frames -/

/-- Install one primitive under its name. -/
def installPrimitive (f : FrameId) (heap : Heap) (primitive : Primitive) : Heap :=
  let (id, heap) := heap.newProcedure (.primitive primitive.name primitive)
  heap.write f primitive.name (.procedure id)

/-- Install every primitive in a frame, and `nil` bound to itself. -/
def installStandard (heap : Heap) (f : FrameId) : Heap :=
  (Primitive.all.foldl (installPrimitive f) heap).write f "nil" .nil

/-- A new root frame with every primitive installed. -/
def standardFrame (heap : Heap) : FrameId × Heap :=
  let (f, heap) := heap.newFrame none []
  (f, heap.installStandard f)

end Heap

end ScopedLisp
