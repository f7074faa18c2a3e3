import ScopedLisp.Proofs.Evaluation.Involved
import ScopedLisp.Proofs.Heap.Growth

/-!
# ScopedLisp.Proofs.Evaluation.Territory

Parts of a heap that evaluation does not leave.  A `Territory` is a set of frames, a set of values
and a set of code.  It is closed in a heap if nothing leads out of it: not the parent of a frame, not
a value in a slot, not the frame or the body of a closure; what is yet to be made belongs to it.

Every territory is a discipline (`Territory.discipline`): code of the territory that runs
in one of its frames goes on in it, while the heap only grows (`Territory.kept_heapAfter`).
-/

namespace ScopedLisp

/-- Frames, values and code. -/
structure Territory where
  frame : FrameId → Prop
  value : Value → Prop
  codes : CodeSet
  scalar {v : Value} : v.Scalar → value v
  proper {v : Value} : value v → v ≠ .unassigned

namespace Territory

/-- Nothing in the heap leads out of the territory, and what is yet to be made belongs to it. -/
structure Closed (t : Territory) (heap : Heap) : Prop where
  parent {f parent : FrameId} : t.frame f → heap.parent? f = some parent → t.frame parent
  slot {f : FrameId} {name : String} {v : Value} :
    t.frame f → heap.get? f name = some v → v = .unassigned ∨ t.value v
  closure {id : ProcedureId} {c : Closure} : t.value (.procedure id) →
    heap.procedures[id]? = some (.closure c) → t.frame c.env ∧ t.codes.mem c.body
  newFrame {f : FrameId} : heap.frames.size ≤ f → t.frame f
  newProcedure {id : ProcedureId} : heap.procedures.size ≤ id → t.value (.procedure id)

variable {t : Territory} {heap : Heap} {f : FrameId}

/-! ## The single changes -/

theorem Closed.newFrameOf (closed : t.Closed heap) {parent : FrameId} (hparent : t.frame parent)
    {slots : List (String × Value)} (values : ∀ slot ∈ slots, slot.2 = .unassigned ∨ t.value slot.2) :
    t.Closed (heap.newFrame (some parent) slots).2 where
  parent hf h := by
    rw [Heap.parent?_newFrame] at h
    split at h
    · cases h
      exact hparent
    · exact closed.parent hf h
  slot hf h := by
    rw [Heap.get?_newFrame] at h
    split at h
    · obtain ⟨pre, post, eq, _⟩ := List.lookup_eq_some_iff.mp h
      exact values _ (eq ▸ List.mem_append_right pre List.mem_cons_self)
    · exact closed.slot hf h
  closure := closed.closure
  newFrame le := closed.newFrame (Nat.le_trans (Heap.extends_newFrame ..).frames_le le)
  newProcedure := closed.newProcedure

theorem Closed.newClosure (closed : t.Closed heap) {c : Closure} (env : t.frame c.env)
    (body : t.codes.mem c.body) : t.Closed (heap.newProcedure (.closure c)).2 where
  parent := closed.parent
  slot := closed.slot
  closure hv h := by
    rcases Heap.procedure_of_newProcedure h with ⟨⟨⟩⟩ | h
    · exact ⟨env, body⟩
    · exact closed.closure hv h
  newFrame := closed.newFrame
  newProcedure le := closed.newProcedure (Nat.le_trans (Heap.extends_newClosure heap c).procedures_le le)

theorem Closed.nameClosure (closed : t.Closed heap) (id : ProcedureId) (name : String) :
    t.Closed (heap.nameClosure id name) where
  parent := closed.parent
  slot := closed.slot
  closure {other c} hv h := by
    have growth := Heap.extends_nameClosure heap id name
    obtain ⟨lt, _⟩ := Array.getElem?_eq_some_iff.mp h
    have lt : other < heap.procedures.size := by simpa [Heap.nameClosure] using lt
    obtain ⟨old, hold, _, body, env⟩ := growth.closure lt h
    rw [env, body]
    exact closed.closure hv hold
  newFrame := closed.newFrame
  newProcedure le :=
    closed.newProcedure (Nat.le_trans (Heap.extends_nameClosure heap id name).procedures_le le)

theorem Closed.write (closed : t.Closed heap) (f : FrameId) (name : String) {v : Value}
    (hv : t.value v) : t.Closed (heap.write f name v) where
  parent hf h := closed.parent hf (by rwa [Heap.parent?_write] at h)
  slot hf h := by
    rw [Heap.get?_write] at h
    split at h
    · cases h
      exact Or.inr hv
    · exact closed.slot hf h
  closure := closed.closure
  newFrame le := closed.newFrame (by rwa [Heap.size_frames_write] at le)
  newProcedure := closed.newProcedure

/-! ## Looking up -/

/-- Walking outward does not leave the territory. -/
theorem Closed.mem_walk (closed : t.Closed heap) {frames : List FrameId}
    (walk : heap.Walk f frames) (hf : t.frame f) : ∀ g ∈ frames, t.frame g := by
  induction walk with
  | root _ _ => simpa using hf
  | outward hparent _ ih =>
      exact List.forall_mem_cons.mpr ⟨hf, ih (closed.parent hf hparent)⟩

/-- What is looked up from a frame of the territory belongs to it. -/
theorem Closed.lookup (closed : t.Closed heap) (sound : heap.Sound) (hf : t.frame f)
    (lt : f < heap.frames.size) {name : String} {v : Value} (h : heap.lookup f name = .ok v) :
    t.value v := by
  obtain ⟨g, hfind, hget, proper⟩ := Heap.lookup_eq_ok_iff.mp h
  have hg := closed.mem_walk (sound.walk lt) hf g (Heap.mem_chain_of_find? hfind)
  exact (closed.slot hg hget).resolve_left proper

/-! ## Frames whose names wait for their values -/

/-- A heap that comes later than such a frame, and has all its names assigned, has no new slot that
is unassigned. -/
theorem settles_of_assigned {last : Heap} {parent : FrameId} {slots : List (String × Value)}
    (growth : (heap.newFrame (some parent) slots).2.Extends last)
    (settles : (heap.newFrame (some parent) slots).2.Settles last)
    (assigned : ∀ slot ∈ slots, last.get? heap.frames.size slot.1 ≠ some .unassigned) :
    heap.Settles last := by
  intro f name le h
  have size : (heap.newFrame (some parent) slots).2.frames.size = heap.frames.size + 1 := by
    simp [Heap.newFrame]
  rcases Nat.eq_or_lt_of_le le with rfl | lt
  · have before := growth.unassigned (size ▸ Nat.lt_succ_self _) h
    rw [Heap.get?_newFrame, if_pos rfl] at before
    obtain ⟨pre, post, eq, _⟩ := List.lookup_eq_some_iff.mp before
    exact assigned _ (eq ▸ List.mem_append_right pre List.mem_cons_self) h
  · exact settles f name (size ▸ lt) h

/-! ## The discipline of a territory -/

/-- Sound heaps that have grown from `base` and in which the territory is closed. -/
structure Kept (t : Territory) (base heap : Heap) : Prop where
  sound : heap.Sound
  closed : t.Closed heap
  growth : base.Extends heap

theorem kept_self (sound : heap.Sound) (closed : t.Closed heap) : t.Kept heap heap :=
  ⟨sound, closed, .refl heap⟩

/-- Code stays in the territory, and heaps only grow.  A computation that ends with a value leaves no
unassigned slot in a new frame; one that fails may. -/
def discipline (t : Territory) (base : Heap) : Discipline where
  sound := t.Kept base
  later before after := before.Extends after ∧ before.Settles after
  failed before after := t.Kept base after ∧ before.Extends after
  frame heap f := t.frame f ∧ f < heap.frames.size
  value heap v := t.value v ∧ heap.Knows v
  codes := t.codes
  later_refl _ := ⟨.refl _, .refl _⟩
  later_trans first second :=
    ⟨first.1.trans second.1, first.2.trans second.1 second.2⟩
  failed_refl kept := ⟨kept, .refl _⟩
  later_failed later failed := ⟨failed.1, later.1.trans failed.2⟩
  frame_later later h := ⟨h.1, Nat.lt_of_lt_of_le h.2 later.1.frames_le⟩
  value_later later h := ⟨h.1, h.2.extends later.1⟩
  frame_lt h := h.2
  assigned_later later h assigned unassigned := assigned (later.1.unassigned h.2 unassigned)
  scalar h := ⟨t.scalar h, by rintro id rfl; exact h.elim⟩
  proper h := t.proper h.1
  lookup kept h hv := by
    refine ⟨kept.closed.lookup kept.sound h.1 h.2 hv, ?_⟩
    obtain ⟨g, _, hget, _⟩ := Heap.lookup_eq_ok_iff.mp hv
    exact kept.sound.knows hget
  closure {heap v c} kept h hc := by
    cases v with
    | procedure id =>
        obtain ⟨env, body⟩ := kept.closed.closure h.1 hc
        exact ⟨⟨env, kept.sound.env_lt hc⟩, body⟩
    | _ => cases hc
  hostless {heap v name respond} kept _ hp := by
    cases v with
    | procedure id => exact kept.sound.hostless name respond (Array.mem_of_getElem? hp)
    | _ => cases hp
  newFrame {heap parent slots} kept h values := by
    have growth := Heap.extends_newFrame heap (some parent) slots
    have closed := kept.closed.newFrameOf h.1 fun slot mem => Or.inr (values slot mem).1
    refine ⟨⟨kept.sound.newFrame h.2 fun slot mem => (values slot mem).2, closed,
      kept.growth.trans growth⟩, ⟨growth, ?_⟩, kept.closed.newFrame (Nat.le_refl _), ?_⟩
    · refine settles_of_assigned (.refl _) (.refl _) fun slot mem unassigned => ?_
      rw [Heap.get?_newFrame, if_pos rfl] at unassigned
      obtain ⟨pre, post, eq, _⟩ := List.lookup_eq_some_iff.mp unassigned
      exact t.proper (values _ (eq ▸ List.mem_append_right pre List.mem_cons_self)).1 rfl
    · simp [Heap.newFrame]
  newClosure {heap c} kept h body := by
    have growth := Heap.extends_newClosure heap c
    refine ⟨⟨kept.sound.newClosure h.2, kept.closed.newClosure h.1 body, kept.growth.trans growth⟩,
      ⟨growth, fun f name le => Heap.Settles.refl heap f name le⟩,
      kept.closed.newProcedure (Nat.le_refl _), ?_⟩
    rintro _ ⟨⟩
    simp [Heap.newProcedure]
  nameClosure {heap} id name kept :=
    have growth := Heap.extends_nameClosure heap id name
    ⟨⟨kept.sound.nameClosure id name, kept.closed.nameClosure id name, kept.growth.trans growth⟩,
      growth, fun f other le => Heap.Settles.refl heap f other le⟩
  write {heap f v} name kept h hv := by
    have growth := Heap.extends_write heap f name (t.proper hv.1)
    refine ⟨⟨kept.sound.write f name hv.2, kept.closed.write f name hv.1, kept.growth.trans growth⟩,
      growth, fun g other le unassigned => ?_⟩
    have := Heap.lt_size_of_get? unassigned
    rw [Heap.size_frames_write] at this
    exact absurd this (Nat.not_lt.mpr le)
  declare {heap parent slots} kept h waiting := by
    have growth := Heap.extends_newFrame heap (some parent) slots
    have known : ∀ slot ∈ slots, heap.Knows slot.2 := by
      intro slot mem id eq
      rw [waiting slot mem] at eq
      cases eq
    have closed := kept.closed.newFrameOf h.1 fun slot mem => Or.inl (waiting slot mem)
    refine ⟨⟨kept.sound.newFrame h.2 known, closed, kept.growth.trans growth⟩,
      ⟨kept.closed.newFrame (Nat.le_refl _), by simp [Heap.newFrame]⟩, ?_, ?_⟩
    · exact fun last later assigned =>
        ⟨growth.trans later.1, settles_of_assigned later.1 later.2 assigned⟩
    · exact fun last failed => ⟨failed.1, growth.trans failed.2⟩

theorem bounded (t : Territory) (base : Heap) : (t.discipline base).Bounded :=
  fun _ f h failed => Nat.not_lt_zero f (Nat.lt_of_lt_of_le h.2 failed.2.frames_le)

/-! ## Runs in a territory -/

variable {run : Call.Run}

/-- May a run be made in the territory? -/
abbrev Permits (t : Territory) (run : Call.Run) : Prop := (t.discipline run.heap).Permits run

variable {base : Heap} {inner : Call.Run}

/-- What is permitted in a heap that has grown is permitted in that heap alone. -/
theorem permits_of_base (permits : (t.discipline base).Permits run) : t.Permits run where
  sound := kept_self permits.sound.sound permits.sound.closed
  admits := by
    have same : ∀ heap c, (t.discipline base).Admits heap c → (t.discipline run.heap).Admits heap c := by
      intro heap c h
      induction c with
      | nested c ih => exact ih h
      | _ => exact h
    exact same run.heap run.call permits.admits

/-- The heap that a permitted run leaves, however it ends, has grown from its own, and nothing leads
out of the territory. -/
theorem kept_heapAfter (permits : t.Permits run) : t.Kept run.heap run.heapAfter := by
  have ends := permits.ends
  simp only [Call.Run.heapAfter, Evaluation.heapAfter]
  change Discipline.Ends _ _ _ (Call.perform run.levels run.call run.heap) at ends
  cases h : Call.perform run.levels run.call run.heap with
  | ok v after =>
      rw [h] at ends
      exact ends.1
  | error failure after =>
      rw [h] at ends
      exact ends.1

/-- What a permitted run involves is permitted, in a heap that has grown from its own. -/
theorem permits_of_involves (permits : t.Permits run) (involves : run.Involves inner) :
    t.Permits inner ∧ run.heap.Extends inner.heap := by
  have h := permits.of_involves (t.bounded run.heap) involves
  exact ⟨permits_of_base h, h.sound.growth⟩

/-! ## Everything -/

/-- All frames, all code and all values but the mark of a name without a value. -/
def everything : Territory where
  frame _ := True
  value v := v ≠ .unassigned
  codes := .all
  scalar {v} h := by
    rintro rfl
    exact h
  proper h := h

/-- Nothing leads out of everything. -/
theorem closed_everything (heap : Heap) : everything.Closed heap where
  parent _ _ := trivial
  slot {_ _ v} _ _ := Classical.em (v = .unassigned)
  closure _ _ := ⟨trivial, trivial⟩
  newFrame _ := trivial
  newProcedure _ := nofun

/-- To evaluate in an existing frame of a sound heap is permitted. -/
theorem permits_everything (sound : heap.Sound) (levels : Nat) {c : Call} (hc : c.frame? = some f)
    (lt : f < heap.frames.size) : everything.Permits ⟨levels, c, heap⟩ where
  sound := kept_self sound (closed_everything heap)
  admits := by
    induction c with
    | eval code env =>
        cases hc
        exact ⟨trivial, trivial, lt⟩
    | form keyword operands env =>
        cases hc
        exact ⟨fun _ _ => trivial, trivial, lt⟩
    | apply procedure args env => cases hc
    | nested c ih => exact ih hc

end Territory

end ScopedLisp
