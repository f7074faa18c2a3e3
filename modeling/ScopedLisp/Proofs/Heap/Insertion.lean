import ScopedLisp.Evaluation.Call
import ScopedLisp.Proofs.Heap.Addresses

/-!
# ScopedLisp.Proofs.Heap.Insertion

A heap with one procedure more.  `Heap.insertProcedure p q` puts the procedure `q` at the address `p`, so that
each procedure from `p` on is found one address further; every value in the heap is shifted with them.
Nothing in such a heap leads to `p`.

What is done to a heap can be done to the heap with the procedure as well, with shifted values: to insert comes
before as well as after it.  And whatever is found out comes out the same, but for the shift.
-/

namespace ScopedLisp

/-! ## Shifted values -/

/-- Addresses of procedures with room for one more at `p`. -/
def shiftId (p id : ProcedureId) : ProcedureId := if id < p then id else id + 1

mutual
/-- A value with room for one more procedure at `p`. -/
def Value.shift (p : ProcedureId) : Value → Value
  | .procedure id => .procedure (shiftId p id)
  | .list items => .list (shiftItems p items)
  | .array items => .array (shiftItems p items)
  | v => v

/-- A row of values with room for one more procedure. -/
def Value.shiftItems (p : ProcedureId) : List Value → List Value
  | [] => []
  | v :: vs => v.shift p :: shiftItems p vs
end

variable {p id id' : ProcedureId}

theorem shiftId_of_lt (h : id < p) : shiftId p id = id := if_pos h

theorem shiftId_of_le (h : p ≤ id) : shiftId p id = id + 1 := if_neg (Nat.not_lt.mpr h)

/-- No shifted address is the one that was made room for. -/
theorem shiftId_ne (p id : ProcedureId) : shiftId p id ≠ p := by
  rcases Nat.lt_or_ge id p with lt | le
  · rw [shiftId_of_lt lt]
    exact Nat.ne_of_lt lt
  · rw [shiftId_of_le le]
    exact Nat.ne_of_gt (Nat.lt_succ_of_le le)

/-- Different addresses stay different. -/
theorem shiftId_injective (p : ProcedureId) : Function.Injective (shiftId p) := by
  intro id id' eq
  simp only [shiftId, ProcedureId] at *
  split at eq <;> split at eq <;> omega

/-- Each address is the one with room, or a shifted one. -/
theorem eq_or_eq_shiftId (p id : ProcedureId) : id = p ∨ ∃ other, id = shiftId p other := by
  rcases Nat.lt_trichotomy id p with lt | eq | gt
  · exact Or.inr ⟨id, (shiftId_of_lt lt).symm⟩
  · exact Or.inl eq
  · obtain ⟨other, rfl⟩ := Nat.exists_eq_succ_of_ne_zero (Nat.ne_of_gt (Nat.zero_lt_of_lt gt))
    exact Or.inr ⟨other, (shiftId_of_le (Nat.le_of_lt_succ gt)).symm⟩

/-- Frames stand for themselves, and procedures for those at the shifted addresses. -/
def Renaming.shifting (p : ProcedureId) : Renaming where
  frame f f' := f = f'
  procedure id id' := id' = shiftId p id
  frame_unique := ⟨fun _ _ _ h h' => h.trans h'.symm, fun _ _ _ h h' => h.symm.trans h'⟩
  procedure_unique :=
    ⟨fun _ _ _ h h' => shiftId_injective p (h.symm.trans h'), fun _ _ _ h h' => h.trans h'.symm⟩

namespace Value

/-- Rows are shifted value by value. -/
theorem shiftItems_eq_map (p : ProcedureId) (vs : List Value) : shiftItems p vs = vs.map (shift p) := by
  induction vs with
  | nil => rfl
  | cons v vs ih => rw [shiftItems, ih, List.map_cons]

mutual
/-- A shifted value is like the value. -/
theorem alike_shift (p : ProcedureId) : ∀ v : Value, v.Alike (.shifting p) (v.shift p)
  | .procedure _ => .procedure rfl
  | .list items => .list (alike_shiftItems p items)
  | .array items => .array (alike_shiftItems p items)
  | .number _ | .bool _ | .symbol _ | .unassigned | .nothing | .string _ | .object .. | .atom _ =>
    .flat rfl nofun

/-- A row is alike its shifted copy, value by value. -/
theorem alike_shiftItems (p : ProcedureId) :
    ∀ vs : List Value, List.Forall₂ (Value.Alike (.shifting p)) vs (shiftItems p vs)
  | [] => .nil
  | v :: vs => .cons (alike_shift p v) (alike_shiftItems p vs)
end

mutual
/-- A value that holds earlier procedures alone is not shifted. -/
theorem shift_of_below : ∀ v : Value, v.Below p → v.shift p = v
  | .procedure _, h => congrArg procedure (shiftId_of_lt (h _ .procedure))
  | .list items, h => congrArg list (shiftItems_of_below items (below_list.mp h))
  | .array items, h => congrArg array (shiftItems_of_below items (below_array.mp h))
  | .number _, _ | .bool _, _ | .symbol _, _ | .unassigned, _ | .nothing, _ | .string _, _
  | .object .., _ | .atom _, _ => rfl

/-- A row that leads only below the address stays as it is. -/
theorem shiftItems_of_below : ∀ vs : List Value, (∀ v ∈ vs, v.Below p) → shiftItems p vs = vs
  | [], _ => rfl
  | v :: vs, h => congrArg₂ List.cons (shift_of_below v (h v List.mem_cons_self))
      (shiftItems_of_below vs fun v mem => h v (List.mem_cons_of_mem _ mem))
end

theorem holds_procedure : (procedure id).Holds id' ↔ id = id' := by
  refine ⟨fun holds => ?_, fun eq => eq ▸ .procedure⟩
  cases holds
  rfl

mutual
/-- A value with room for a procedure does not hold it. -/
theorem not_holds_shift (p : ProcedureId) : ∀ v : Value, ¬(v.shift p).Holds p
  | .procedure id, holds => shiftId_ne p id (holds_procedure.mp holds)
  | .list items, holds => by
      simp only [shift] at holds
      cases holds with
      | list mem holds => exact not_holds_shiftItems p items _ mem holds
  | .array items, holds => by
      simp only [shift] at holds
      cases holds with
      | array mem holds => exact not_holds_shiftItems p items _ mem holds
  | .number _, holds | .bool _, holds | .symbol _, holds | .unassigned, holds | .nothing, holds
  | .string _, holds | .object .., holds | .atom _, holds => by cases holds

/-- No value of a shifted row leads to the address. -/
theorem not_holds_shiftItems (p : ProcedureId) : ∀ vs : List Value, ∀ v ∈ shiftItems p vs, ¬v.Holds p
  | [], _, mem, _ => absurd mem List.not_mem_nil
  | v :: vs, _, mem, holds => by
      rcases List.mem_cons.mp mem with rfl | mem
      · exact not_holds_shift p v holds
      · exact not_holds_shiftItems p vs _ mem holds
end

/-- Values that lead to no procedure stay as they are. -/
theorem shift_of_scalar {v : Value} (h : v.Scalar) : v.shift p = v :=
  v.shift_of_below (below_of_scalar h)

end Value

/-! ## Shifted heaps -/

/-- A frame with shifted values. -/
def Frame.shift (p : ProcedureId) (frame : Frame) : Frame :=
  { frame with slots := frame.slots.map fun (name, value) => (name, value.shift p) }

/-- A closure with shifted values in its body. -/
def Closure.shift (p : ProcedureId) (c : Closure) : Closure := { c with body := c.body.shift p }

/-- Primitives and procedures of a host stay as they are. -/
def Procedure.shift (p : ProcedureId) : Procedure → Procedure
  | .closure c => .closure (c.shift p)
  | other => other

/-- A request with shifted values. -/
def HostRequest.shift (p : ProcedureId) : HostRequest → HostRequest
  | .answer v => .answer (v.shift p)
  | .define name v => .define name (v.shift p)
  | .apply procedure args => .apply (procedure.shift p) (args.map (Value.shift p))
  | other => other

namespace Heap

/-- The heap with one procedure more. -/
def insertProcedure (heap : Heap) (p : ProcedureId) (q : Procedure) : Heap :=
  ⟨heap.frames.map (Frame.shift p),
    ((heap.procedures.toList.map (Procedure.shift p)).insertIdx p q).toArray⟩

/-- Procedures of a host do not look at the numbers of addresses: of shifted arguments they make a shifted
request. -/
def HostsBlind (heap : Heap) (p : ProcedureId) : Prop :=
  ∀ name respond, .host name respond ∈ heap.procedures →
    ∀ args, respond (args.map (Value.shift p)) = (respond args).shift p

end Heap

namespace Frame

/-- The value of a slot is shifted, and found under the name as before. -/
theorem lookup_shift (p : ProcedureId) (name : String) (slots : List (String × Value)) :
    (slots.map fun (name, value) => (name, value.shift p)).lookup name =
      (slots.lookup name).map (Value.shift p) := by
  induction slots with
  | nil => rfl
  | cons slot slots ih =>
      obtain ⟨other, value⟩ := slot
      simp only [List.map_cons, List.lookup_cons, ih]
      split <;> rfl

/-- A shifted frame holds the shifted values under the same names. -/
theorem get?_shift (p : ProcedureId) (frame : Frame) (name : String) :
    (frame.shift p).get? name = (frame.get? name).map (Value.shift p) :=
  lookup_shift p name frame.slots

/-- To shift after a write is to write the shifted value. -/
theorem setSlot_shift (p : ProcedureId) (name : String) (v : Value) (slots : List (String × Value)) :
    (setSlot name v slots).map (fun (name, value) => (name, value.shift p)) =
      setSlot name (v.shift p) (slots.map fun (name, value) => (name, value.shift p)) := by
  induction slots with
  | nil => rfl
  | cons slot slots ih =>
      obtain ⟨other, value⟩ := slot
      simp only [setSlot, List.map_cons]
      split
      · rfl
      · rw [List.map_cons, ih]

/-- A frame of earlier procedures alone is not shifted. -/
theorem shift_of_below (frame : Frame) (h : ∀ slot ∈ frame.slots, slot.2.Below p) :
    frame.shift p = frame := by
  obtain ⟨parent, slots⟩ := frame
  refine congrArg (mk parent) ((List.map_congr_left fun slot mem => ?_).trans (List.map_id slots))
  exact Prod.ext rfl (slot.2.shift_of_below (h slot mem))

/-- To shift a frame after a write is to write the shifted value in the shifted frame. -/
theorem shift_set (p : ProcedureId) (frame : Frame) (name : String) (v : Value) :
    (frame.set name v).shift p = (frame.shift p).set name (v.shift p) := by
  simp only [set, shift, setSlot_shift]

end Frame

/-- Nor is a procedure with a body of earlier procedures alone. -/
theorem Procedure.shift_of_below (q : Procedure) (h : ∀ c, q = .closure c → c.body.Below p) :
    q.shift p = q := by
  cases q with
  | closure c =>
      obtain ⟨formals, body, env, name⟩ := c
      have same : body.shift p = body := body.shift_of_below (h _ rfl)
      rw [shift, Closure.shift, same]
  | primitive _ _ => rfl
  | host _ _ => rfl

namespace Heap

variable {heap : Heap} {f : FrameId} {name : String} {v : Value} {q : Procedure}

theorem getElem?_frames_insert (heap : Heap) (p : ProcedureId) (q : Procedure) (f : FrameId) :
    (heap.insertProcedure p q).frames[f]? = heap.frames[f]?.map (Frame.shift p) :=
  Array.getElem?_map

/-- Each procedure is found at its shifted address. -/
theorem getElem?_procedures_insert (heap : Heap) (p : ProcedureId) (q : Procedure) (id : ProcedureId) :
    (heap.insertProcedure p q).procedures[shiftId p id]? =
      heap.procedures[id]?.map (Procedure.shift p) := by
  simp only [insertProcedure, List.getElem?_toArray, List.getElem?_insertIdx]
  rcases Nat.lt_or_ge id p with lt | ge
  · rw [shiftId_of_lt lt, if_pos lt, List.getElem?_map, Array.getElem?_toList]
  · rw [shiftId_of_le ge, if_neg (Nat.not_lt.mpr (Nat.le_succ_of_le ge)),
      if_neg (Nat.ne_of_gt (Nat.lt_succ_of_le ge)), List.getElem?_map, Nat.add_sub_cancel,
      Array.getElem?_toList]

/-- The new procedure is found where it was put. -/
theorem getElem?_procedures_inserted (le : p ≤ heap.procedures.size) (q : Procedure) :
    (heap.insertProcedure p q).procedures[p]? = some q := by
  simp only [insertProcedure, List.getElem?_toArray, List.getElem?_insertIdx_self, List.length_map,
    Array.length_toList, if_pos le]

/-- There is one procedure more. -/
theorem size_procedures_insert (le : p ≤ heap.procedures.size) (q : Procedure) :
    (heap.insertProcedure p q).procedures.size = heap.procedures.size + 1 := by
  rw [insertProcedure, List.size_toArray, List.length_insertIdx_of_le_length, List.length_map,
    Array.length_toList]
  rwa [List.length_map, Array.length_toList]

/-- A shifted value is applied as the shifted procedure. -/
theorem procedure?_insert (heap : Heap) (p : ProcedureId) (q : Procedure) (v : Value) :
    (heap.insertProcedure p q).procedure? (v.shift p) = (heap.procedure? v).map (Procedure.shift p) := by
  cases v with
  | procedure id => exact getElem?_procedures_insert heap p q id
  | _ => rfl

/-- Frames keep their addresses and parents, so chains stay what they are. -/
theorem chain_insert (heap : Heap) (p : ProcedureId) (q : Procedure) (f : FrameId) :
    (heap.insertProcedure p q).chain f = heap.chain f := by
  refine chain_congr (fun f => ?_) f
  rw [getElem?_frames_insert, Option.map_map]
  rfl

/-- Every frame holds the shifted values. -/
theorem get?_insert (heap : Heap) (p : ProcedureId) (q : Procedure) (f : FrameId) (name : String) :
    (heap.insertProcedure p q).get? f name = (heap.get? f name).map (Value.shift p) := by
  simp only [get?, getElem?_frames_insert]
  cases heap.frames[f]? with
  | none => rfl
  | some frame => exact frame.get?_shift p name

/-- Names are found in the frames they were found in. -/
theorem find?_insert (heap : Heap) (p : ProcedureId) (q : Procedure) (f : FrameId) (name : String) :
    (heap.insertProcedure p q).find? f name = heap.find? f name := by
  simp only [find?_eq_chain_find?, holds, chain_insert, get?_insert, Option.isSome_map]

/-! ### What is done to a heap -/

/-- A procedure may be inserted before a frame is made or after it. -/
theorem insert_newFrame (heap : Heap) (p : ProcedureId) (q : Procedure) (parent : Option FrameId)
    (slots : List (String × Value)) :
    (heap.newFrame parent slots).2.insertProcedure p q =
      ((heap.insertProcedure p q).newFrame parent
        (slots.map fun (name, value) => (name, value.shift p))).2 := by
  simp only [newFrame, insertProcedure, Array.map_push, Frame.shift]

/-- To insert in the first part of a row is to insert in the row. -/
theorem insertIdx_append {α : Type} {as : List α} {i : Nat} (le : i ≤ as.length) (a : α) (bs : List α) :
    (as ++ bs).insertIdx i a = as.insertIdx i a ++ bs := by
  induction i generalizing as with
  | zero => rfl
  | succ i ih =>
      cases as with
      | nil => cases le
      | cons b as => exact congrArg (b :: ·) (ih (Nat.le_of_succ_le_succ le))

/-- A procedure may be inserted before another is made behind it or after that. -/
theorem insert_newProcedure (le : p ≤ heap.procedures.size) (q r : Procedure) :
    (heap.newProcedure r).2.insertProcedure p q =
      ((heap.insertProcedure p q).newProcedure (r.shift p)).2 := by
  have le' : p ≤ (heap.procedures.toList.map (Procedure.shift p)).length := by
    rwa [List.length_map, Array.length_toList]
  simp only [newProcedure, insertProcedure, Array.toList_push, List.map_append, List.push_toArray,
    insertIdx_append le', List.map_cons, List.map_nil]

/-- A procedure may be inserted before a write or after it. -/
theorem insert_write (heap : Heap) (p : ProcedureId) (q : Procedure) (f : FrameId) (name : String)
    (v : Value) :
    (heap.write f name v).insertProcedure p q =
      (heap.insertProcedure p q).write f name (v.shift p) := by
  simp only [write, insertProcedure]
  congr 1
  refine Array.ext_getElem? fun i => ?_
  simp only [Array.getElem?_map, Array.getElem?_modify]
  split <;> simp [Function.comp_def, Frame.shift_set]

/-- A procedure may be inserted before a closure is named or after that. -/
theorem insert_nameClosure (le : p ≤ heap.procedures.size) (q : Procedure) (id : ProcedureId)
    (name : String) :
    (heap.nameClosure id name).insertProcedure p q =
      (heap.insertProcedure p q).nameClosure (shiftId p id) name := by
  have le' : p ≤ (heap.nameClosure id name).procedures.size := by rwa [nameClosure, Array.size_modify]
  have procedures : ((heap.nameClosure id name).insertProcedure p q).procedures =
      ((heap.insertProcedure p q).nameClosure (shiftId p id) name).procedures := by
    refine Array.ext_getElem? fun i => ?_
    rcases eq_or_eq_shiftId p i with rfl | ⟨other, rfl⟩
    · rw [getElem?_procedures_inserted le', nameClosure, Array.getElem?_modify,
        if_neg (shiftId_ne _ _), getElem?_procedures_inserted le]
    · rw [getElem?_procedures_insert]
      simp only [nameClosure, Array.getElem?_modify, (shiftId_injective p).eq_iff,
        getElem?_procedures_insert]
      split
      · simp only [Option.map_map]
        congr 1
        funext r
        cases r <;> rfl
      · rfl
  exact congrArg (Heap.mk _) procedures

/-- To make a procedure is to put it behind all others. -/
theorem newProcedure_eq_insert (grounded : heap.Grounded) (q : Procedure) :
    (heap.newProcedure q).2 = heap.insertProcedure heap.procedures.size q := by
  have frames : heap.frames.map (Frame.shift heap.procedures.size) = heap.frames := by
    refine (Array.map_congr_left fun frame there => ?_).trans (Array.map_id heap.frames)
    exact frame.shift_of_below fun slot mem id holds => grounded.slot there mem holds
  have procedures : heap.procedures.toList.map (Procedure.shift heap.procedures.size) =
      heap.procedures.toList := by
    refine (List.map_congr_left fun r there => ?_).trans (List.map_id heap.procedures.toList)
    exact r.shift_of_below fun c eq id holds => grounded.body (eq ▸ Array.mem_toList_iff.mp there) holds
  rw [insertProcedure, frames, procedures, ← Array.length_toList, List.insertIdx_length_self,
    ← Array.toList_push, Array.toArray_toList]
  rfl

/-- A new closure is no procedure of the host, so the others ask for nothing new. -/
theorem HostsBlind.newClosure (blind : heap.HostsBlind p) (c : Closure) :
    (heap.newProcedure (.closure c)).2.HostsBlind p := by
  intro name respond mem
  rcases Array.mem_push.mp mem with mem | eq
  · exact blind name respond mem
  · cases eq

/-- To name a closure changes no procedure of the host. -/
theorem HostsBlind.nameClosure (blind : heap.HostsBlind p) (id : ProcedureId) (name : String) :
    (heap.nameClosure id name).HostsBlind p :=
  fun host respond mem => blind host respond (host_of_nameClosure mem)

/-! ### What is found out about a heap -/

/-- Names mean the shifted values, as seen from any frame. -/
theorem lookup_insert (heap : Heap) (p : ProcedureId) (q : Procedure) (f : FrameId) (name : String) :
    (heap.insertProcedure p q).lookup f name = (heap.lookup f name).map (Value.shift p) := by
  simp only [lookup, find?_insert, get?_insert]
  rcases heap.find? f name with _ | g
  · rfl
  · rcases h : heap.get? g name with _ | v
    · simp [h]; rfl
    · cases v <;> simp [h] <;> rfl

/-- Shifted values have the texts of the values. -/
theorem sameTexts_insert (heap : Heap) (p : ProcedureId) (q : Procedure) :
    heap.SameTexts (.shifting p) (heap.insertProcedure p q) where
  inspected {id _} h := by
    cases h
    rw [getElem?_procedures_insert]
    rcases heap.procedures[id]? with _ | r
    · rfl
    · cases r <;> rfl
  displayed {id _} h := by
    cases h
    rw [getElem?_procedures_insert]
    rcases heap.procedures[id]? with _ | r
    · rfl
    · cases r <;> rfl

/-- Nothing but the new procedure itself leads to it. -/
theorem not_leads_inserted (le : p ≤ heap.procedures.size) (q : Procedure) :
    ¬(heap.insertProcedure p q).Leads (· ≠ .procedure p) (.procedure p) := by
  intro leads
  have other : ∀ a, (heap.insertProcedure p q).Leads (· ≠ .procedure p) a → a ≠ .procedure p := by
    intro a leads
    induction leads with
    | seed h => exact h
    | parent _ _ _ => nofun
    | slot _ h holds _ =>
        rintro ⟨rfl⟩
        rw [get?_insert, Option.map_eq_some_iff] at h
        obtain ⟨v, _, rfl⟩ := h
        exact v.not_holds_shift p holds
    | env _ _ _ => nofun
    | @body id _ c _ h holds ih =>
        rintro ⟨rfl⟩
        rcases eq_or_eq_shiftId p id with rfl | ⟨id, rfl⟩
        · exact ih rfl
        · rw [getElem?_procedures_insert, Option.map_eq_some_iff] at h
          obtain ⟨r, _, eq⟩ := h
          cases r <;> cases eq
          exact Value.not_holds_shift p _ holds
  exact other _ leads rfl

end Heap

/-- A closure waits for its name in one heap if its shifted copy does in the other. -/
theorem Form.isFresh_insert (heap : Heap) (p : ProcedureId) (q : Procedure) (f : FrameId) (v : Value) :
    isFresh (heap.insertProcedure p q) f (v.shift p) = isFresh heap f v := by
  simp only [isFresh, Heap.closure?, Heap.procedure?_insert]
  cases heap.procedure? v with
  | none => rfl
  | some r => cases r <;> rfl

end ScopedLisp
