import ScopedLisp.Proofs.Heap.Growth

/-!
# ScopedLisp.Proofs.Heap.Reachable

What can be reached in a heap: from a frame the frame around it, and from a closure in one of its
slots the frame that the closure was made in.  `Assigned seeds` says that nothing reachable from some
frames is missing or half made: the frames exist, the procedures in their slots exist, and no slot
waits for a value.

What is reachable from frames that are left alone is left alone (`Assigned.of_spared`), and to
write a value whose own frames are assigned keeps them so (`Assigned.write`).
-/

namespace ScopedLisp

/-- The frame that a closure was made in. -/
def Procedure.env? : Procedure → Option FrameId
  | .closure c => some c.env
  | _ => none

namespace Heap

/-- The frame that a value was made in, if it is a closure. -/
def envOf? (heap : Heap) (v : Value) : Option FrameId := (heap.procedure? v).bind (·.env?)

/-- The frames that some frames lead to. -/
inductive Reachable (heap : Heap) (seeds : FrameId → Prop) : FrameId → Prop where
  | seed {f : FrameId} : seeds f → Reachable heap seeds f
  | parent {f parent : FrameId} : Reachable heap seeds f → heap.parent? f = some parent →
      Reachable heap seeds parent
  | closure {f env : FrameId} {name : String} {v : Value} : Reachable heap seeds f →
      heap.get? f name = some v → heap.envOf? v = some env → Reachable heap seeds env

/-- What some frames lead to exists, and no slot there waits for a value. -/
structure Assigned (heap : Heap) (seeds : FrameId → Prop) : Prop where
  lt {f : FrameId} : heap.Reachable seeds f → f < heap.frames.size
  slot {f : FrameId} {name : String} {v : Value} : heap.Reachable seeds f →
    heap.get? f name = some v → v ≠ .unassigned ∧ heap.Knows v

variable {heap before after : Heap} {seeds seeds' : FrameId → Prop} {f : FrameId}

/-! ## Frames of closures -/

/-- Only closures are made in a frame. -/
theorem envOf?_eq_some_iff {v : Value} : heap.envOf? v = some f ↔
    ∃ id c, v = .procedure id ∧ heap.procedures[id]? = some (.closure c) ∧ c.env = f := by
  cases v with
  | procedure id =>
      simp only [envOf?, procedure?, Option.bind_eq_some_iff]
      constructor
      · rintro ⟨p, hp, env⟩
        cases p with
        | closure c => exact ⟨id, c, rfl, hp, Option.some.inj env⟩
        | _ => cases env
      · rintro ⟨_, c, eq, hc, env⟩
        cases eq
        exact ⟨_, hc, congrArg some env⟩
  | _ => simp [envOf?, procedure?]

/-! ## Reachability -/

/-- More frames to begin with lead to more. -/
theorem Reachable.mono (h : heap.Reachable seeds f) (imp : ∀ f, seeds f → seeds' f) :
    heap.Reachable seeds' f := by
  induction h with
  | seed h => exact .seed (imp _ h)
  | parent _ hparent ih => exact .parent ih hparent
  | closure _ hget henv ih => exact .closure ih hget henv

/-- In a sound heap what exists leads to what exists. -/
theorem Sound.reachable_lt (sound : heap.Sound) (exist : ∀ f, seeds f → f < heap.frames.size)
    (h : heap.Reachable seeds f) : f < heap.frames.size := by
  induction h with
  | seed h => exact exist _ h
  | parent _ hparent ih => exact Nat.lt_trans (sound.parent_lt hparent) ih
  | closure _ _ henv _ =>
      obtain ⟨id, c, _, hc, rfl⟩ := envOf?_eq_some_iff.mp henv
      exact sound.env_lt hc

/-- Fewer frames to begin with lead to fewer slots that may wait. -/
theorem Assigned.mono (assigned : heap.Assigned seeds) (imp : ∀ f, seeds' f → seeds f) :
    heap.Assigned seeds' :=
  ⟨fun h => assigned.lt (h.mono imp), fun h => assigned.slot (h.mono imp)⟩

/-! ## Frames that are left alone -/

/-- The frames of a heap are left alone, and so are the frames that its closures were made in. -/
structure Spared (before after : Heap) : Prop where
  frame {f : FrameId} : f < before.frames.size → after.frames[f]? = before.frames[f]?
  procedures_le : before.procedures.size ≤ after.procedures.size
  env {v : Value} : before.Knows v → after.envOf? v = before.envOf? v

theorem Spared.refl (heap : Heap) : heap.Spared heap :=
  ⟨fun _ => rfl, Nat.le_refl _, fun _ => rfl⟩

theorem Spared.lt (spared : before.Spared after) (lt : f < before.frames.size) :
    f < after.frames.size := by
  have h := spared.frame lt
  rw [Array.getElem?_eq_getElem lt] at h
  exact (Array.getElem?_eq_some_iff.mp h).1

/-- What is left alone in two steps is left alone. -/
theorem Spared.trans {mid : Heap} (first : before.Spared mid) (second : mid.Spared after) :
    before.Spared after where
  frame lt := (second.frame (first.lt lt)).trans (first.frame lt)
  procedures_le := Nat.le_trans first.procedures_le second.procedures_le
  env known := (second.env fun id eq => Nat.lt_of_lt_of_le (known id eq) first.procedures_le).trans
    (first.env known)

/-- No more is reachable than before. -/
theorem Spared.reachable (spared : before.Spared after) (assigned : before.Assigned seeds)
    (h : after.Reachable seeds f) : before.Reachable seeds f := by
  induction h with
  | seed h => exact .seed h
  | parent _ hparent ih =>
      rw [parent?_congr (spared.frame (assigned.lt ih))] at hparent
      exact .parent ih hparent
  | closure _ hget henv ih =>
      rw [get?_congr (spared.frame (assigned.lt ih))] at hget
      rw [spared.env (assigned.slot ih hget).2] at henv
      exact .closure ih hget henv

/-- Where frames are left alone, no slot that they lead to begins to wait. -/
theorem Assigned.of_spared (assigned : before.Assigned seeds) (spared : before.Spared after) :
    after.Assigned seeds where
  lt h := spared.lt (assigned.lt (spared.reachable assigned h))
  slot {f name v} h hget := by
    have h := spared.reachable assigned h
    rw [get?_congr (spared.frame (assigned.lt h))] at hget
    obtain ⟨proper, known⟩ := assigned.slot h hget
    exact ⟨proper, fun id eq => Nat.lt_of_lt_of_le (known id eq) spared.procedures_le⟩

/-- A new frame leaves all others alone. -/
theorem spared_newFrame (heap : Heap) (parent : Option FrameId) (slots : List (String × Value)) :
    heap.Spared (heap.newFrame parent slots).2 where
  frame lt := getElem?_frames_newFrame lt parent slots
  procedures_le := Nat.le_refl _
  env _ := rfl

/-- A new closure leaves all frames alone, and those that closures were made in. -/
theorem spared_newClosure (heap : Heap) (c : Closure) :
    heap.Spared (heap.newProcedure (.closure c)).2 where
  frame _ := rfl
  procedures_le := (extends_newClosure heap c).procedures_le
  env {v} known := by
    cases v with
    | procedure id =>
        have lt := known id rfl
        simp only [envOf?, procedure?, newProcedure]
        rw [Array.getElem?_push_lt lt, Array.getElem?_eq_getElem lt]
    | _ => rfl

/-- To name a closure changes no frame and moves no closure. -/
theorem spared_nameClosure (heap : Heap) (id : ProcedureId) (name : String) :
    heap.Spared (heap.nameClosure id name) where
  frame _ := rfl
  procedures_le := (extends_nameClosure heap id name).procedures_le
  env {v} known := by
    cases v with
    | procedure other =>
        simp only [envOf?, procedure?, nameClosure, Array.getElem?_modify]
        split
        · cases heap.procedures[other]? with
          | none => rfl
          | some p => cases p <;> rfl
        · rfl
    | _ => rfl

/-! ## Writing -/

/-- To write a new frame spares the old ones. -/
theorem Spared.write (spared : before.Spared after) (new : before.frames.size ≤ f) (name : String)
    (v : Value) : before.Spared (after.write f name v) where
  frame {g} lt := by
    rw [getElem?_frames_write (Nat.ne_of_lt (Nat.lt_of_lt_of_le lt new))]
    exact spared.frame lt
  procedures_le := spared.procedures_le
  env known := spared.env known

/-- A frame stays assigned if what is written into it is. -/
theorem Assigned.write {v : Value} (name : String)
    (assigned : heap.Assigned fun g => g = f ∨ heap.envOf? v = some g) (proper : v ≠ .unassigned)
    (known : heap.Knows v) : (heap.write f name v).Assigned (· = f) := by
  have reachable : ∀ {g}, (heap.write f name v).Reachable (· = f) g →
      heap.Reachable (fun g => g = f ∨ heap.envOf? v = some g) g := by
    intro g h
    induction h with
    | seed h => exact .seed (Or.inl h)
    | parent _ hparent ih => exact .parent ih (by rwa [parent?_write] at hparent)
    | closure _ hget henv ih =>
        rw [get?_write] at hget
        split at hget
        · cases hget
          exact .seed (Or.inr henv)
        · exact .closure ih hget henv
  refine ⟨fun h => ?_, fun h hget => ?_⟩
  · rw [size_frames_write]
    exact assigned.lt (reachable h)
  · rw [get?_write] at hget
    split at hget
    · cases hget
      exact ⟨proper, known⟩
    · exact assigned.slot (reachable h) hget

end Heap

end ScopedLisp
