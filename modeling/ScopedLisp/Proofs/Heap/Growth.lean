import Mathlib.Data.List.Basic
import ScopedLisp.Proofs.Evaluation.Locality

/-!
# ScopedLisp.Proofs.Heap.Growth

How a heap may grow.  `Sound` says that everything in a heap leads somewhere: a parent is
older than its frames, the frame of a closure exists, a value that is a procedure is one of the
heap.  `Extends before after` says that `after` came about by growth alone: no frame is lost
or moved, names are added behind those that are there, and no slot becomes unassigned.

Main statements:

* in a sound heap every walk outward ends (`Sound.walk`);
* what could be looked up from a frame still can be in a heap that extends this one
  (`Extends.staysBound`);
* each change of a heap that evaluation makes keeps it sound and extends it.
-/

namespace ScopedLisp

/-- A procedure without the name that a definition gave it. -/
def Procedure.unnamed : Procedure → Procedure
  | .closure c => .closure { c with name := none }
  | other => other

namespace Heap

/-- The names of a frame, in the order of their first writing. -/
def names (heap : Heap) (f : FrameId) : List String := (heap.slots f).map (·.1)

/-- Everything in the heap leads somewhere, and no procedure of a host is in it. -/
structure Sound (heap : Heap) : Prop where
  hostless : heap.Hostless
  /-- A parent is older than its frames. -/
  parent_lt {f parent : FrameId} : heap.parent? f = some parent → parent < f
  /-- The frame that a closure was made in exists. -/
  env_lt {id : ProcedureId} {c : Closure} :
    heap.procedures[id]? = some (.closure c) → c.env < heap.frames.size
  /-- A procedure that is bound exists. -/
  procedure_lt {f : FrameId} {name : String} {id : ProcedureId} :
    heap.get? f name = some (.procedure id) → id < heap.procedures.size

/-- What was there before is there still, and what is new is behind it. -/
structure Extends (before after : Heap) : Prop where
  /-- Frames are only added. -/
  frames_le : before.frames.size ≤ after.frames.size
  /-- A frame keeps its parent. -/
  parent {f : FrameId} : f < before.frames.size → after.parent? f = before.parent? f
  /-- A frame keeps its names in their order; new ones come behind them. -/
  names {f : FrameId} : f < before.frames.size → before.names f <+: after.names f
  /-- A slot that is unassigned has been so all the time. -/
  unassigned {f : FrameId} {name : String} : f < before.frames.size →
    after.get? f name = some .unassigned → before.get? f name = some .unassigned
  /-- Procedures are only added. -/
  procedures_le : before.procedures.size ≤ after.procedures.size
  /-- Nothing but the name of a procedure changes. -/
  procedure {id : ProcedureId} {p : Procedure} : id < before.procedures.size →
    after.procedures[id]? = some p →
      ∃ old, before.procedures[id]? = some old ∧ p.unnamed = old.unnamed
  /-- What is new among the procedures is a closure. -/
  newProcedure {id : ProcedureId} {p : Procedure} : before.procedures.size ≤ id →
    after.procedures[id]? = some p → ∃ c, p = .closure c

/-- No new frame has an unassigned slot. -/
def Settles (before after : Heap) : Prop :=
  ∀ f name, before.frames.size ≤ f → after.get? f name ≠ some .unassigned

variable {heap before mid after : Heap} {f g : FrameId} {name : String}

/-! ## Frames -/

/-- A frame with a value in it is one of the heap. -/
theorem lt_size_of_get? {v : Value} (h : heap.get? f name = some v) : f < heap.frames.size := by
  simp only [get?, Option.bind_eq_some_iff] at h
  obtain ⟨frame, hframe, _⟩ := h
  obtain ⟨lt, _⟩ := Array.getElem?_eq_some_iff.mp hframe
  exact lt

/-- A frame with a parent is one of the heap. -/
theorem lt_size_of_parent? {parent : FrameId} (h : heap.parent? f = some parent) :
    f < heap.frames.size := by
  simp only [parent?, Option.bind_eq_some_iff] at h
  obtain ⟨frame, hframe, _⟩ := h
  obtain ⟨lt, _⟩ := Array.getElem?_eq_some_iff.mp hframe
  exact lt

/-- The names at an address are those of the frame there. -/
theorem names_of_getElem? {frame : Frame} (h : heap.frames[f]? = some frame) :
    heap.names f = frame.names := by
  simp [names, slots, h, Frame.names]

/-- A frame holds the names that it lists. -/
theorem holds_iff_mem_names : heap.holds f name = true ↔ name ∈ heap.names f := by
  simp only [holds, get?, names, slots]
  cases heap.frames[f]? with
  | none => simp
  | some frame =>
      simp only [Option.bind_some, Option.map_some, Option.getD_some, Frame.get?]
      rw [List.lookup_isSome_iff]
      simp [List.mem_map]

/-! ## Growth is transitive -/

theorem Extends.refl (heap : Heap) : heap.Extends heap where
  frames_le := Nat.le_refl _
  parent _ := rfl
  names _ := List.prefix_rfl
  unassigned _ h := h
  procedures_le := Nat.le_refl _
  procedure _ h := ⟨_, h, rfl⟩
  newProcedure le h := by
    obtain ⟨lt, _⟩ := Array.getElem?_eq_some_iff.mp h
    omega

/-- Growth upon growth is growth. -/
theorem Extends.trans (first : before.Extends mid) (second : mid.Extends after) :
    before.Extends after where
  frames_le := Nat.le_trans first.frames_le second.frames_le
  parent lt := (second.parent (Nat.lt_of_lt_of_le lt first.frames_le)).trans (first.parent lt)
  names lt := (first.names lt).trans (second.names (Nat.lt_of_lt_of_le lt first.frames_le))
  unassigned lt h :=
    first.unassigned lt (second.unassigned (Nat.lt_of_lt_of_le lt first.frames_le) h)
  procedures_le := Nat.le_trans first.procedures_le second.procedures_le
  procedure lt h := by
    obtain ⟨p, hmid, eq⟩ := second.procedure (Nat.lt_of_lt_of_le lt first.procedures_le) h
    obtain ⟨old, hbefore, eq'⟩ := first.procedure lt hmid
    exact ⟨old, hbefore, eq.trans eq'⟩
  newProcedure {id p} le h := by
    by_cases lt : id < mid.procedures.size
    · obtain ⟨q, hmid, eq⟩ := second.procedure lt h
      obtain ⟨c, rfl⟩ := first.newProcedure le hmid
      cases p with
      | closure c' => exact ⟨c', rfl⟩
      | _ => cases eq
    · exact second.newProcedure (Nat.le_of_not_lt lt) h

theorem Settles.refl (heap : Heap) : heap.Settles heap := by
  intro f name le h
  exact absurd (lt_size_of_get? h) (Nat.not_lt.mpr le)

/-- If the frames of each of two growths are settled at its end, so are those of both together. -/
theorem Settles.trans (first : before.Settles mid) (growth : mid.Extends after)
    (second : mid.Settles after) : before.Settles after := by
  intro f name le h
  by_cases lt : f < mid.frames.size
  · exact first f name le (growth.unassigned lt h)
  · exact second f name (Nat.le_of_not_lt lt) h

/-- A name that a frame holds stays there. -/
theorem Extends.holds (growth : before.Extends after) (lt : f < before.frames.size)
    (h : before.holds f name = true) : after.holds f name = true :=
  holds_iff_mem_names.mpr ((growth.names lt).subset (holds_iff_mem_names.mp h))

/-- A closure keeps its parameters, its body and its frame. -/
theorem Extends.closure {id : ProcedureId} {c : Closure} (growth : before.Extends after)
    (lt : id < before.procedures.size) (h : after.procedures[id]? = some (.closure c)) :
    ∃ old : Closure, before.procedures[id]? = some (.closure old) ∧ c.formals = old.formals ∧
      c.body = old.body ∧ c.env = old.env := by
  obtain ⟨old, hbefore, eq⟩ := growth.procedure lt h
  cases old with
  | closure old =>
      simp only [Procedure.unnamed, Procedure.closure.injEq, Closure.mk.injEq, and_true] at eq
      exact ⟨old, hbefore, eq⟩
  | _ => cases eq

/-! ## The single changes -/

/-- Frames that are left as they are keep their parents, names and values. -/
theorem parent?_congr (h : after.frames[f]? = before.frames[f]?) :
    after.parent? f = before.parent? f := by
  simp only [parent?, h]

/-- Frames that are left as they are keep their names. -/
theorem names_congr (h : after.frames[f]? = before.frames[f]?) : after.names f = before.names f := by
  simp only [names, slots, h]

/-- Frames that are left as they are keep their values. -/
theorem get?_congr (h : after.frames[f]? = before.frames[f]?) (name : String) :
    after.get? f name = before.get? f name := by
  simp only [get?, h]

/-- A new frame has the parent it was made with, and no other frame gets one. -/
theorem parent?_newFrame (heap : Heap) (parent : Option FrameId) (slots : List (String × Value))
    (g : FrameId) : (heap.newFrame parent slots).2.parent? g =
      if g = heap.frames.size then parent else heap.parent? g := by
  simp only [parent?, newFrame, Array.getElem?_push]
  split <;> rfl

/-- A new frame extends the heap. -/
theorem extends_newFrame (heap : Heap) (parent : Option FrameId) (slots : List (String × Value)) :
    heap.Extends (heap.newFrame parent slots).2 where
  frames_le := by simp [newFrame]
  parent lt := parent?_congr (getElem?_frames_newFrame lt parent slots)
  names lt := (names_congr (getElem?_frames_newFrame lt parent slots)) ▸ List.prefix_rfl
  unassigned lt h := by rwa [get?_congr (getElem?_frames_newFrame lt parent slots)] at h
  procedures_le := Nat.le_refl _
  procedure _ h := ⟨_, h, rfl⟩
  newProcedure le h := (Extends.refl heap).newProcedure le h

/-- After a procedure was made, each procedure is that one or was there before. -/
theorem procedure_of_newProcedure {id : ProcedureId} {p q : Procedure}
    (h : (heap.newProcedure p).2.procedures[id]? = some q) : q = p ∨ heap.procedures[id]? = some q := by
  simp only [newProcedure, Array.getElem?_push] at h
  split at h
  · exact Or.inl (Option.some.inj h).symm
  · exact Or.inr h

/-- A new closure extends the heap. -/
theorem extends_newClosure (heap : Heap) (c : Closure) :
    heap.Extends (heap.newProcedure (.closure c)).2 where
  frames_le := Nat.le_refl _
  parent _ := rfl
  names _ := List.prefix_rfl
  unassigned _ h := h
  procedures_le := by simp [newProcedure]
  procedure {id p} lt h := by
    simp only [newProcedure, Array.getElem?_push_lt lt] at h
    exact ⟨p, by rw [Array.getElem?_eq_getElem lt, h], rfl⟩
  newProcedure {id p} le h := by
    rcases procedure_of_newProcedure h with rfl | h
    · exact ⟨c, rfl⟩
    · exact (Extends.refl heap).newProcedure le h

/-- Naming a closure changes its name. -/
theorem getElem?_procedures_nameClosure {id other : ProcedureId} {p : Procedure}
    (h : (heap.nameClosure id name).procedures[other]? = some p) :
    ∃ old, heap.procedures[other]? = some old ∧ p.unnamed = old.unnamed := by
  simp only [nameClosure, Array.getElem?_modify] at h
  split at h
  · obtain ⟨old, hold, rfl⟩ := Option.map_eq_some_iff.mp h
    refine ⟨old, hold, ?_⟩
    cases old <;> rfl
  · exact ⟨p, h, rfl⟩

/-- To name a closure extends the heap: only the name changes. -/
theorem extends_nameClosure (heap : Heap) (id : ProcedureId) (name : String) :
    heap.Extends (heap.nameClosure id name) where
  frames_le := Nat.le_refl _
  parent _ := rfl
  names _ := List.prefix_rfl
  unassigned _ h := h
  procedures_le := by simp [nameClosure]
  procedure _ h := getElem?_procedures_nameClosure h
  newProcedure le h := by
    obtain ⟨old, hold, _⟩ := getElem?_procedures_nameClosure h
    exact absurd (Array.getElem?_eq_some_iff.mp hold).1 (Nat.not_lt.mpr le)

/-- A closure has its parameters, its body and its frame from before it was named. -/
theorem closure_of_nameClosure {id other : ProcedureId} {c : Closure}
    (h : (heap.nameClosure id name).procedures[other]? = some (.closure c)) :
    ∃ old : Closure, heap.procedures[other]? = some (.closure old) ∧ c.formals = old.formals ∧
      c.body = old.body ∧ c.env = old.env := by
  have lt : other < (heap.nameClosure id name).procedures.size := (Array.getElem?_eq_some_iff.mp h).1
  have lt : other < heap.procedures.size := by simpa [nameClosure] using lt
  exact (extends_nameClosure heap id name).closure lt h

/-- Writing a slot adds its name at the end of a frame, if at all. -/
theorem names_write_prefix (heap : Heap) (f g : FrameId) (name : String) (value : Value) :
    heap.names g <+: (heap.write f name value).names g := by
  by_cases same : g = f
  · subst same
    cases h : heap.frames[g]? with
    | none => simp [names, slots, h]
    | some frame =>
        have written : (heap.write g name value).frames[g]? = some (frame.set name value) := by
          simp [write, Array.getElem?_modify, h]
        rw [names_of_getElem? h, names_of_getElem? written, Frame.names_set]
        split
        · exact List.prefix_rfl
        · exact List.prefix_append _ _
  · exact (names_congr (getElem?_frames_write same name value)) ▸ List.prefix_rfl

/-- Writing a value extends the heap, if it is not the mark of an unassigned slot. -/
theorem extends_write (heap : Heap) (f : FrameId) (name : String) {value : Value}
    (proper : value ≠ .unassigned) : heap.Extends (heap.write f name value) where
  frames_le := by simp
  parent _ := parent?_write ..
  names _ := names_write_prefix ..
  unassigned _ h := by
    rw [get?_write] at h
    split at h
    · exact absurd (Option.some.inj h) proper
    · exact h
  procedures_le := Nat.le_refl _
  procedure _ h := ⟨_, h, rfl⟩
  newProcedure le h := (Extends.refl heap).newProcedure le h

/-! ## Soundness is kept -/

/-- A value that is a procedure is one of the heap. -/
def Knows (heap : Heap) (value : Value) : Prop :=
  ∀ id, value = .procedure id → id < heap.procedures.size

/-- Procedures are never lost, so a known value stays known. -/
theorem Knows.extends {value : Value} (h : before.Knows value) (growth : before.Extends after) :
    after.Knows value :=
  fun id eq => Nat.lt_of_lt_of_le (h id eq) growth.procedures_le

/-- The values in the slots of a sound heap are known. -/
theorem Sound.knows {value : Value} (sound : heap.Sound) (h : heap.get? f name = some value) :
    heap.Knows value := by
  rintro id rfl
  exact sound.procedure_lt h

/-- A new frame inside an old one, with known values in it, keeps a heap sound. -/
theorem Sound.newFrame (sound : heap.Sound) {parent : FrameId} (lt : parent < heap.frames.size)
    {slots : List (String × Value)} (known : ∀ slot ∈ slots, heap.Knows slot.2) :
    (heap.newFrame (some parent) slots).2.Sound where
  hostless := sound.hostless
  parent_lt h := by
    rw [parent?_newFrame] at h
    split at h
    next eq =>
      cases h
      rw [eq]
      exact lt
    · exact sound.parent_lt h
  env_lt h := Nat.lt_of_lt_of_le (sound.env_lt h) (extends_newFrame ..).frames_le
  procedure_lt h := by
    rw [get?_newFrame] at h
    split at h
    · obtain ⟨pre, post, eq, _⟩ := List.lookup_eq_some_iff.mp h
      exact known _ (eq ▸ List.mem_append_right pre List.mem_cons_self) _ rfl
    · exact sound.procedure_lt h

/-- A new closure in an old frame keeps a heap sound. -/
theorem Sound.newClosure (sound : heap.Sound) {c : Closure} (lt : c.env < heap.frames.size) :
    (heap.newProcedure (.closure c)).2.Sound where
  hostless := sound.hostless.newClosure c
  parent_lt := sound.parent_lt
  env_lt h := by
    rcases procedure_of_newProcedure h with ⟨⟨⟩⟩ | h
    · exact lt
    · exact sound.env_lt h
  procedure_lt h := Nat.lt_of_lt_of_le (sound.procedure_lt h) (extends_newClosure heap c).procedures_le

/-- To name a closure keeps a heap sound. -/
theorem Sound.nameClosure (sound : heap.Sound) (id : ProcedureId) (name : String) :
    (heap.nameClosure id name).Sound where
  hostless := sound.hostless.nameClosure id name
  parent_lt := sound.parent_lt
  env_lt {other c} h := by
    obtain ⟨old, hold, _, _, env⟩ := closure_of_nameClosure h
    rw [env]
    exact sound.env_lt hold
  procedure_lt h :=
    Nat.lt_of_lt_of_le (sound.procedure_lt h) (extends_nameClosure heap id name).procedures_le

/-- To write a known value keeps a heap sound. -/
theorem Sound.write (sound : heap.Sound) (f : FrameId) (name : String) {value : Value}
    (known : heap.Knows value) : (heap.write f name value).Sound where
  hostless := sound.hostless
  parent_lt h := sound.parent_lt (by rwa [parent?_write] at h)
  env_lt h := by
    rw [size_frames_write]
    exact sound.env_lt h
  procedure_lt h := by
    rw [get?_write] at h
    split at h
    · exact known _ (Option.some.inj h)
    · exact sound.procedure_lt h

/-! ## Walking outward -/

/-- Walking outward from a frame: the frames met, up to the first that has no parent. -/
inductive Walk (heap : Heap) : FrameId → List FrameId → Prop where
  | root {f : FrameId} : f < heap.frames.size → heap.parent? f = none → Walk heap f [f]
  | outward {f parent : FrameId} {frames : List FrameId} : heap.parent? f = some parent →
      Walk heap parent frames → Walk heap f (f :: frames)

/-- The first step of a walk outward. -/
theorem chainWithin_succ (lt : f < heap.frames.size) (fuel : Nat) :
    heap.chainWithin (fuel + 1) f =
      f :: ((heap.parent? f).map (heap.chainWithin fuel)).getD [] := by
  simp only [chainWithin, parent?]
  rw [Array.getElem?_eq_getElem lt]
  obtain ⟨parent, slots⟩ := heap.frames[f]
  cases parent <;> rfl

/-- A walk outward depends on the parents alone. -/
theorem chainWithin_congr
    (parents : ∀ f : FrameId, after.frames[f]?.map Frame.parent = before.frames[f]?.map Frame.parent)
    (fuel : Nat) (f : FrameId) : after.chainWithin fuel f = before.chainWithin fuel f := by
  induction fuel generalizing f with
  | zero => rfl
  | succ fuel ih =>
      have same := parents f
      simp only [chainWithin]
      generalize after.frames[f]? = x at same ⊢
      generalize before.frames[f]? = y at same ⊢
      rcases x with _ | ⟨parent, slots⟩ <;> rcases y with _ | ⟨parent', slots'⟩ <;> cases same
      · rfl
      · cases parent with
        | none => rfl
        | some parent => exact congrArg _ (ih parent)

/-- Heaps whose frames have the same parents have the same chains. -/
theorem chain_congr
    (parents : ∀ f : FrameId, after.frames[f]?.map Frame.parent = before.frames[f]?.map Frame.parent)
    (f : FrameId) : after.chain f = before.chain f :=
  chainWithin_congr parents (f + 1) f

/-- Parents are older, so a walk from the frame at `f` ends within `f + 1` steps. -/
theorem Sound.walk_chainWithin (sound : heap.Sound) {fuel : Nat} (enough : f < fuel)
    (lt : f < heap.frames.size) : heap.Walk f (heap.chainWithin fuel f) := by
  induction fuel generalizing f with
  | zero => exact absurd enough (Nat.not_lt_zero f)
  | succ fuel ih =>
      rw [chainWithin_succ lt]
      cases hp : heap.parent? f with
      | none => exact .root lt hp
      | some parent =>
          have parent_lt := sound.parent_lt hp
          have enough := Nat.lt_of_lt_of_le parent_lt (Nat.le_of_lt_succ enough)
          exact .outward hp (ih enough (Nat.lt_trans parent_lt lt))

/-- **Walks end**: the chain of a frame is the walk outward from it, up to a frame without parent. -/
theorem Sound.walk (sound : heap.Sound) (lt : f < heap.frames.size) :
    heap.Walk f (heap.chain f) :=
  sound.walk_chainWithin (Nat.lt_succ_self f) lt

/-- A walk has no more frames than it may have steps. -/
theorem length_chainWithin_le (fuel : Nat) (f : FrameId) : (heap.chainWithin fuel f).length ≤ fuel := by
  induction fuel generalizing f with
  | zero => exact Nat.le_refl 0
  | succ fuel ih =>
      unfold chainWithin
      split
      · exact Nat.zero_le _
      · exact Nat.le_add_left 1 fuel
      · exact Nat.succ_le_succ (ih _)

/-- With enough steps the way to the root ends in the last frame of the walk, which has no parent. -/
theorem Walk.rootWithin {frames : List FrameId} (walk : heap.Walk f frames) {fuel : Nat}
    (enough : frames.length ≤ fuel) :
    frames.getLast? = some (heap.rootWithin fuel f) ∧ heap.parent? (heap.rootWithin fuel f) = none := by
  induction walk generalizing fuel with
  | root _ outermost =>
      obtain ⟨fuel, rfl⟩ := Nat.exists_eq_succ_of_ne_zero (Nat.ne_zero_of_lt enough)
      rw [Heap.rootWithin, outermost]
      exact ⟨rfl, outermost⟩
  | @outward f parent frames inside walk ih =>
      obtain ⟨fuel, rfl⟩ := Nat.exists_eq_succ_of_ne_zero (Nat.ne_zero_of_lt enough)
      obtain ⟨last, outermost⟩ := ih (Nat.le_of_succ_le_succ enough)
      rw [Heap.rootWithin, inside]
      exact ⟨by rw [List.getLast?_cons, last]; rfl, outermost⟩

/-- The root of a frame is the last one of its chain, where the chain is the whole walk outward. -/
theorem Walk.getLast?_chain (walk : heap.Walk f (heap.chain f)) :
    (heap.chain f).getLast? = some (heap.root f) :=
  (walk.rootWithin (length_chainWithin_le (f + 1) f)).1

/-- The root of a walk that ends has no parent. -/
theorem Walk.parent?_root (walk : heap.Walk f (heap.chain f)) : heap.parent? (heap.root f) = none :=
  (walk.rootWithin (length_chainWithin_le (f + 1) f)).2

/-- Does every walk outward end?  The chain of a frame is the whole walk, and its root has no parent. -/
def WalksEnd (heap : Heap) : Prop :=
  ∀ f < heap.frames.size, heap.Walk f (heap.chain f) ∧ heap.parent? (heap.root f) = none

/-- In a sound heap every walk outward ends. -/
theorem Sound.walksEnd (sound : heap.Sound) : heap.WalksEnd := by
  intro f lt
  have walk := sound.walk lt
  exact ⟨walk, walk.parent?_root⟩

/-- Growth changes no chain. -/
theorem Extends.chainWithin (growth : before.Extends after) (sound : before.Sound)
    (lt : f < before.frames.size) (fuel : Nat) :
    after.chainWithin fuel f = before.chainWithin fuel f := by
  induction fuel generalizing f with
  | zero => rfl
  | succ fuel ih =>
      rw [chainWithin_succ lt, chainWithin_succ (Nat.lt_of_lt_of_le lt growth.frames_le),
        growth.parent lt]
      cases hp : before.parent? f with
      | none => rfl
      | some parent =>
          have parent_lt := sound.parent_lt hp
          rw [Option.map_some, Option.map_some, ih (Nat.lt_trans parent_lt lt)]

/-- An old frame keeps its whole chain. -/
theorem Extends.chain (growth : before.Extends after) (sound : before.Sound)
    (lt : f < before.frames.size) : after.chain f = before.chain f :=
  growth.chainWithin sound lt (f + 1)

/-! ## Looking up -/

/-- A name is looked up with success exactly if a frame of the chain has it and its slot is assigned. -/
theorem lookup_eq_ok_iff {value : Value} : heap.lookup f name = .ok value ↔
    ∃ g, heap.find? f name = some g ∧ heap.get? g name = some value ∧ value ≠ .unassigned := by
  unfold lookup
  cases hfind : heap.find? f name with
  | none => simp
  | some g =>
      cases hget : heap.get? g name with
      | none => simp [hget]
      | some v => cases v <;> grind

/-- Where more elements have a property, the first that has it is found among the fewer if it is one
of them. -/
theorem find?_eq_of_imp {α : Type} {p q : α → Bool} {l : List α} {a : α}
    (imp : ∀ x ∈ l, p x = true → q x = true) (h : l.find? q = some a) (ha : p a = true) :
    l.find? p = some a := by
  obtain ⟨_, pre, post, rfl, before⟩ := List.find?_eq_some_iff_append.mp h
  refine List.find?_eq_some_iff_append.mpr ⟨ha, pre, post, rfl, fun x mem => ?_⟩
  have hq := before x mem
  have himp := imp x (List.mem_append_left _ mem)
  cases hp : p x with
  | false => rfl
  | true => simp [himp hp] at hq

/-- Can all that could be looked up from a frame be looked up from it still? -/
def StaysBound (before after : Heap) : Prop :=
  ∀ f < before.frames.size, ∀ name value, before.lookup f name = .ok value →
    ∃ value', after.lookup f name = .ok value'

/-- **Bound for good**: what could be looked up from a frame can be looked up from it in every heap
that extends this one. -/
theorem Extends.staysBound (growth : before.Extends after) (sound : before.Sound) :
    before.StaysBound after := by
  intro f lt name value h
  obtain ⟨g, hfind, hget, proper⟩ := lookup_eq_ok_iff.mp h
  have old : ∀ x ∈ before.chain f, x < before.frames.size := fun x mem =>
    lt_size_of_mem_chainWithin mem
  have imp : ∀ x ∈ before.chain f, before.holds x name = true → after.holds x name = true :=
    fun x mem holds => growth.holds (old x mem) holds
  have holds : before.holds g name = true := by simp [Heap.holds, hget]
  have found : ((before.chain f).find? (after.holds · name)).isSome := by
    rw [List.find?_isSome]
    have mem := mem_chain_of_find? hfind
    exact ⟨g, mem, imp g mem holds⟩
  obtain ⟨g', hfind'⟩ := Option.isSome_iff_exists.mp found
  have holds' := List.find?_some hfind'
  obtain ⟨value', hget'⟩ := Option.isSome_iff_exists.mp holds'
  refine ⟨value', lookup_eq_ok_iff.mpr ⟨g', ?_, hget', ?_⟩⟩
  · rw [find?_eq_chain_find?, growth.chain sound lt]
    exact hfind'
  · -- were it unassigned, it would have been so before, and the same frame would have been found
    rintro rfl
    have unassigned := growth.unassigned (old g' (List.mem_of_find?_eq_some hfind')) hget'
    have same : (before.chain f).find? (before.holds · name) = some g' :=
      find?_eq_of_imp imp hfind' (by simp [Heap.holds, unassigned])
    rw [← find?_eq_chain_find?, hfind] at same
    cases same
    rw [hget] at unassigned
    exact proper (Option.some.inj unassigned)

end Heap

end ScopedLisp
