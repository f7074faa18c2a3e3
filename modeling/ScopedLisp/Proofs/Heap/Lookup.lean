import Mathlib.Data.List.Find
import ScopedLisp.Proofs.Heap.Omission

/-!
# ScopedLisp.Proofs.Heap.Lookup

Looking up a name frame by frame: it means what the frame itself says and, where the frame is silent, what the
frame around it says.

Walking outward from a frame may be relied on if it leads to older and older frames, up to one without parent
(`Heap.Rooted`).  What can be looked up from such a frame depends on it and older ones alone, whatever becomes of
the others (`Rooted.lookup_congr`).
-/

namespace ScopedLisp.Heap

variable {heap after : Heap} {f parent : FrameId} {name : String}

/-! ## What a frame was made with and what was written into it -/

section Slots

variable (heap : Heap) (outer : Option FrameId) (slots : List (String × Value))

/-- A new frame is one of the heap. -/
theorem lt_size_newFrame : heap.frames.size < (heap.newFrame outer slots).2.frames.size :=
  Nat.lt_of_lt_of_eq (Nat.lt_succ_self _) (Array.size_push ..).symm

/-- A new frame has the parent it was made with. -/
theorem parent?_newFrame_own : (heap.newFrame outer slots).2.parent? heap.frames.size = outer := by
  rw [parent?_newFrame, if_pos rfl]

/-- A new frame has the values it was made with. -/
theorem get?_newFrame_own (name : String) :
    (heap.newFrame outer slots).2.get? heap.frames.size name = slots.lookup name := by
  rw [get?_newFrame, if_pos rfl]

/-- What was written is there. -/
theorem get?_write_own (lt : f < heap.frames.size) (name : String) (v : Value) :
    (heap.write f name v).get? f name = some v := by
  rw [get?_write, if_pos ⟨rfl, lt, rfl⟩]

/-- Writing one name leaves the values of the others. -/
theorem get?_write_of_ne {other : String} (ne : other ≠ name) (f g : FrameId) (v : Value) :
    (heap.write f name v).get? g other = heap.get? g other := by
  rw [get?_write, if_neg fun h => ne h.2.2]

end Slots

/-! ## Walking outward -/

/-- Walking outward from a frame leads to older and older frames, up to one without parent. -/
inductive Rooted (heap : Heap) : FrameId → Prop where
  | root {f : FrameId} : f < heap.frames.size → heap.parent? f = none → heap.Rooted f
  | outward {f parent : FrameId} : heap.parent? f = some parent → parent < f → heap.Rooted parent → heap.Rooted f

theorem Rooted.lt_size (rooted : heap.Rooted f) : f < heap.frames.size := by
  cases rooted with
  | root lt _ => exact lt
  | outward h _ _ => exact lt_size_of_parent? h

/-- More steps than the address of a frame do not lead further. -/
theorem Rooted.chainWithin_eq (rooted : heap.Rooted f) {fuel : Nat} (enough : f < fuel) :
    heap.chainWithin fuel f = heap.chain f := by
  induction rooted generalizing fuel with
  | root lt outermost =>
      obtain ⟨fuel, rfl⟩ := Nat.exists_eq_succ_of_ne_zero (Nat.ne_zero_of_lt enough)
      rw [chain, chainWithin_succ lt, chainWithin_succ lt, outermost]
      rfl
  | @outward f parent inside older rooted ih =>
      obtain ⟨fuel, rfl⟩ := Nat.exists_eq_succ_of_ne_zero (Nat.ne_zero_of_lt enough)
      have lt := lt_size_of_parent? inside
      rw [chain, chainWithin_succ lt, chainWithin_succ lt, inside, Option.map_some, Option.map_some,
        ih (Nat.lt_of_lt_of_le older (Nat.le_of_lt_succ enough)), ih older]

/-- The chain of a frame is the frame and the chain of its parent. -/
theorem Rooted.chain_eq_cons (rooted : heap.Rooted parent) (inside : heap.parent? f = some parent)
    (older : parent < f) : heap.chain f = f :: heap.chain parent := by
  rw [chain, chainWithin_succ (lt_size_of_parent? inside), inside, Option.map_some, Option.getD_some,
    rooted.chainWithin_eq older]

/-! ## Frame by frame -/

/-- A name that a frame holds is found there. -/
theorem find?_of_holds (h : heap.holds f name = true) : heap.find? f name = some f := by
  rw [find?, findWithin, if_pos h]

/-- A name that the frame itself holds means what the frame says. -/
theorem lookup_of_get? {v : Value} (h : heap.get? f name = some v) (assigned : v ≠ .unassigned) :
    heap.lookup f name = .ok v :=
  lookup_eq_ok_iff.mpr ⟨f, find?_of_holds (by rw [holds, h]; rfl), h, assigned⟩

/-- A name that the frame does not hold means what it means in the frame around. -/
theorem lookup_of_parent? (rooted : heap.Rooted parent) (inside : heap.parent? f = some parent) (older : parent < f)
    (h : heap.get? f name = none) : heap.lookup f name = heap.lookup parent name := by
  have free : ¬heap.holds f name = true := by rw [holds, h]; exact Bool.false_ne_true
  have outside : heap.find? f name = heap.find? parent name := by
    rw [find?_eq_chain_find?, find?_eq_chain_find?, rooted.chain_eq_cons inside older]
    exact List.find?_cons_of_neg free
  rw [lookup, lookup, outside]

/-- A write under another name is not seen. -/
theorem lookup_write_of_ne {other : String} (ne : other ≠ name) (g : FrameId) (v : Value) :
    (heap.write f name v).lookup g other = heap.lookup g other := by
  rw [← lookup_without _ f g ne, without_write_self, lookup_without heap f g ne]

/-! ## Changes elsewhere -/

/-- Whether walks from a frame end depends on the parents of no younger frames. -/
theorem Rooted.congr (rooted : heap.Rooted f) (parents : ∀ g ≤ f, after.parent? g = heap.parent? g)
    (lt : f < after.frames.size) : after.Rooted f := by
  induction rooted with
  | root _ outermost => exact .root lt ((parents _ (Nat.le_refl _)).trans outermost)
  | outward inside older _ ih =>
      refine .outward ((parents _ (Nat.le_refl _)).trans inside) older (ih (fun g le => parents g ?_) ?_)
      · exact Nat.le_trans le (Nat.le_of_lt older)
      · exact Nat.lt_trans older lt

/-- Writing does not change where walks lead. -/
theorem Rooted.write (rooted : heap.Rooted f) (g : FrameId) (name : String) (v : Value) :
    (heap.write g name v).Rooted f :=
  rooted.congr (fun _ _ => parent?_write ..) (by rw [size_frames_write]; exact rooted.lt_size)

/-- Only older frames are in the chain of a rooted one. -/
theorem Rooted.le_of_mem_chain (rooted : heap.Rooted f) : ∀ g ∈ heap.chain f, g ≤ f := by
  induction rooted with
  | root lt outermost =>
      rw [chain, chainWithin_succ lt, outermost]
      intro g mem
      exact Nat.le_of_eq (List.mem_singleton.mp mem)
  | outward inside older rooted ih =>
      rw [rooted.chain_eq_cons inside older]
      exact List.forall_mem_cons.mpr ⟨Nat.le_refl _, fun g mem => Nat.le_trans (ih g mem) (Nat.le_of_lt older)⟩

section Stays

variable (rooted : heap.Rooted f) (same : ∀ g ≤ f, after.frames[g]? = heap.frames[g]?)
include rooted same

/-- A frame whose elders are left alone keeps its walks. -/
theorem Rooted.stays : after.Rooted f := by
  have there := same f (Nat.le_refl f)
  rw [Array.getElem?_eq_getElem rooted.lt_size] at there
  exact rooted.congr (fun g le => parent?_congr (same g le)) (Array.getElem?_eq_some_iff.mp there).1

/-- A frame whose elders are left alone keeps its chain. -/
theorem Rooted.chain_congr : after.chain f = heap.chain f := by
  induction rooted with
  | @root f lt outermost =>
      have rooted := Rooted.root lt outermost
      rw [chain, chain, chainWithin_succ lt, chainWithin_succ (rooted.stays same).lt_size,
        parent?_congr (same f (Nat.le_refl f)), outermost]
      rfl
  | @outward f parent inside older rooted ih =>
      have same' : ∀ g ≤ parent, after.frames[g]? = heap.frames[g]? := fun g le =>
        same g (Nat.le_trans le (Nat.le_of_lt older))
      have inside' : after.parent? f = some parent := by rw [parent?_congr (same f (Nat.le_refl f)), inside]
      rw [rooted.chain_eq_cons inside older, (rooted.stays same').chain_eq_cons inside' older, ih same']

/-- What can be looked up from a frame depends on it and on older ones alone. -/
theorem Rooted.lookup_congr (name : String) : after.lookup f name = heap.lookup f name := by
  have get?_eq : ∀ g ∈ heap.chain f, after.get? g name = heap.get? g name := fun g mem =>
    get?_congr (same g (rooted.le_of_mem_chain g mem)) name
  have find?_eq : after.find? f name = heap.find? f name := by
    rw [find?_eq_chain_find?, find?_eq_chain_find?, rooted.chain_congr same]
    exact List.find?_congr fun g mem => by rw [holds, holds, get?_eq g mem]
  rw [lookup, lookup, find?_eq]
  cases found : heap.find? f name with
  | none => rfl
  | some g => rw [Option.bind_some, Option.bind_some, get?_eq g (mem_chain_of_find? found)]

end Stays

/-! ## New frames -/

section NewFrame

variable (rooted : heap.Rooted f)
include rooted

/-- A new frame leaves the old ones alone. -/
theorem Rooted.same_newFrame (slots : List (String × Value)) :
    ∀ g ≤ f, (heap.newFrame (some f) slots).2.frames[g]? = heap.frames[g]? := fun _ le =>
  getElem?_frames_newFrame (Nat.lt_of_le_of_lt le rooted.lt_size) (some f) slots

/-- A new frame is rooted in the frame around it. -/
theorem Rooted.newFrame (slots : List (String × Value)) :
    (heap.newFrame (some f) slots).2.Rooted heap.frames.size :=
  .outward (parent?_newFrame_own ..) rooted.lt_size (rooted.stays (rooted.same_newFrame slots))

/-- A name that a new frame does not hold means in it what it means in the frame around. -/
theorem Rooted.lookup_newFrame {slots : List (String × Value)} (h : slots.lookup name = none) :
    (heap.newFrame (some f) slots).2.lookup heap.frames.size name = heap.lookup f name := by
  have same := rooted.same_newFrame slots
  have inside := parent?_newFrame_own heap (some f) slots
  have free := (get?_newFrame_own heap (some f) slots name).trans h
  rw [lookup_of_parent? (rooted.stays same) inside rooted.lt_size free, rooted.lookup_congr same]

end NewFrame

end ScopedLisp.Heap
