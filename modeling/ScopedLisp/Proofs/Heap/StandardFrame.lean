import ScopedLisp.Proofs.Heap.Lookup

/-!
# ScopedLisp.Proofs.Heap.StandardFrame

A new root frame with every primitive installed, in whatever heap: each primitive can be looked up from it under
its own name.
-/

namespace ScopedLisp.Heap

variable {heap : Heap} {f : FrameId} {p : Primitive}

/-- A frame holds a primitive under its name. -/
def Installed (heap : Heap) (f : FrameId) (p : Primitive) : Prop :=
  ∃ id, heap.get? f p.name = some (.procedure id) ∧ heap.procedures[id]? = some (.primitive p.name p)

@[simp] theorem size_installPrimitive (f : FrameId) (heap : Heap) (p : Primitive) :
    (heap.installPrimitive f p).frames.size = heap.frames.size :=
  size_frames_write ..

@[simp] theorem parent?_installPrimitive (f : FrameId) (heap : Heap) (p : Primitive) (g : FrameId) :
    (heap.installPrimitive f p).parent? g = heap.parent? g :=
  parent?_write ..

/-- A primitive is found under its name once it is installed. -/
theorem installed_installPrimitive (lt : f < heap.frames.size) (p : Primitive) :
    (installPrimitive f heap p).Installed f p := by
  exact ⟨heap.procedures.size, get?_write_own _ lt _ _, Array.getElem?_push_size⟩

/-- To install a primitive leaves the others installed. -/
theorem Installed.installPrimitive (installed : heap.Installed f p) (q : Primitive) :
    (installPrimitive f heap q).Installed f p := by
  obtain ⟨id, slot, there⟩ := installed
  by_cases same : p = q
  · subst same
    exact installed_installPrimitive (lt_size_of_get? slot) p
  · have other : p.name ≠ q.name := fun eq => same (by
      have found := p.ofName?_name
      rw [eq, q.ofName?_name] at found
      exact (Option.some.inj found).symm)
    refine ⟨id, ?_, ?_⟩
    · exact (get?_write_of_ne _ other _ _ _).trans slot
    · obtain ⟨lt, -⟩ := Array.getElem?_eq_some_iff.mp there
      exact (Array.getElem?_push_lt lt).trans (Array.getElem?_eq_getElem lt ▸ there)

/-- What a row of primitives leaves installed: those that were before, and those of the row. -/
theorem installed_foldl (ps : List Primitive) (lt : f < heap.frames.size) (h : heap.Installed f p ∨ p ∈ ps) :
    (ps.foldl (installPrimitive f) heap).Installed f p := by
  induction ps generalizing heap with
  | nil => exact h.resolve_right List.not_mem_nil
  | cons q ps ih =>
      refine ih (by rwa [size_installPrimitive]) ?_
      rcases h with installed | mem
      · exact Or.inl (installed.installPrimitive q)
      · rcases List.mem_cons.mp mem with rfl | mem
        · exact Or.inl (installed_installPrimitive lt p)
        · exact Or.inr mem

/-- To install primitives adds no frame and moves none. -/
theorem frames_foldl (ps : List Primitive) (heap : Heap) (g : FrameId) :
    (ps.foldl (installPrimitive f) heap).frames.size = heap.frames.size ∧
      (ps.foldl (installPrimitive f) heap).parent? g = heap.parent? g := by
  induction ps generalizing heap with
  | nil => exact ⟨rfl, rfl⟩
  | cons p ps ih =>
      obtain ⟨size, parent⟩ := ih (heap.installPrimitive f p)
      exact ⟨size.trans (size_installPrimitive ..), parent.trans (parent?_installPrimitive ..)⟩

/-- A standard frame is a root. -/
theorem rooted_standardFrame (heap : Heap) : heap.standardFrame.2.Rooted heap.standardFrame.1 := by
  let frame := (heap.newFrame none []).2
  obtain ⟨size, parent⟩ := frames_foldl (f := heap.frames.size) Primitive.all frame heap.frames.size
  refine .root ?_ ?_
  · change heap.frames.size < ((Primitive.all.foldl _ frame).write _ _ _).frames.size
    rw [size_frames_write, size]
    exact lt_size_newFrame heap none []
  · exact (parent?_write ..).trans (parent.trans (parent?_newFrame_own ..))

/-- Every primitive can be looked up from a standard frame. -/
theorem lookup_standardFrame (heap : Heap) (p : Primitive) : ∃ id,
    heap.standardFrame.2.lookup heap.standardFrame.1 p.name = .ok (.procedure id) ∧
      heap.standardFrame.2.procedures[id]? = some (.primitive p.name p) := by
  have lt := lt_size_newFrame heap none []
  obtain ⟨id, slot, there⟩ := installed_foldl Primitive.all lt (Or.inr p.mem_all)
  refine ⟨id, lookup_of_get? ?_ nofun, there⟩
  have other : p.name ≠ "nil" := by cases p <;> decide
  exact (get?_write_of_ne _ other _ _ _).trans slot

end ScopedLisp.Heap
