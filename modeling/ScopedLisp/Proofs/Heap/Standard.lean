import ScopedLisp.Proofs.Heap.Reachable

/-!
# ScopedLisp.Proofs.Heap.Standard

The heap of a new interpreter: a root frame, in which each primitive is bound to its own name, and
`nil` to itself.  It is sound, and its root frame leads to assigned slots only.
-/

namespace ScopedLisp

/-- A heap with a standard root frame and nothing else. -/
def Heap.standard : Heap := (Heap.empty.standardFrame).2

namespace Heap

variable {f : FrameId} {name : String} {v : Value} {id : ProcedureId} {p : Procedure}

/-- The slots of the root frame. -/
def standardSlots : List (String × Value) :=
  (Primitive.all.zipIdx.map fun (p, id) => (p.name, .procedure id)) ++ [("nil", .nil)]

/-- There is one frame, and it has no parent. -/
theorem frames_standard : standard.frames = #[⟨none, standardSlots⟩] := by rfl

/-- The procedures are the primitives, in their order. -/
theorem procedures_standard :
    standard.procedures = (Primitive.all.map fun p => .primitive p.name p).toArray := by
  rfl

/-- Every procedure is a primitive under its own name. -/
theorem primitive_of_standard (h : standard.procedures[id]? = some p) :
    ∃ primitive : Primitive, p = .primitive primitive.name primitive := by
  rw [procedures_standard] at h
  have mem := Array.mem_of_getElem? h
  simp only [List.mem_toArray, List.mem_map] at mem
  obtain ⟨primitive, _, rfl⟩ := mem
  exact ⟨primitive, rfl⟩

/-- Every slot holds `nil` or a primitive. -/
theorem value_of_standardSlots {slot : String × Value} (mem : slot ∈ standardSlots) :
    slot.2 = .nil ∨ ∃ id, slot.2 = .procedure id ∧ id < standard.procedures.size := by
  simp only [standardSlots, List.mem_append, List.mem_map, List.mem_singleton] at mem
  rcases mem with ⟨⟨primitive, id⟩, hid, rfl⟩ | rfl
  · refine Or.inr ⟨id, rfl, ?_⟩
    have := List.snd_lt_of_mem_zipIdx hid
    simpa [procedures_standard] using this
  · exact Or.inl rfl

/-- The slots of the one frame. -/
theorem slots_of_standard {frame : Frame} (there : frame ∈ standard.frames) :
    frame.slots = standardSlots := by
  simp only [frames_standard, List.mem_toArray, List.mem_singleton] at there
  rw [there]

/-- A slot of the one frame holds `nil` or a primitive. -/
theorem slot_of_standard (h : standard.get? f name = some v) :
    v = .nil ∨ ∃ id, v = .procedure id ∧ id < standard.procedures.size := by
  obtain ⟨frame, there, h⟩ := Option.bind_eq_some_iff.mp h
  obtain ⟨pre, post, eq, _⟩ := List.lookup_eq_some_iff.mp h
  have mem : (name, v) ∈ frame.slots := eq ▸ List.mem_append_right pre List.mem_cons_self
  exact value_of_standardSlots (slots_of_standard (Array.mem_of_getElem? there) ▸ mem)

/-- No frame is inside another one. -/
theorem parent?_standard (f : FrameId) : standard.parent? f = none := by
  cases h : standard.frames[f]? with
  | none => simp [parent?, h]
  | some frame =>
      have mem := Array.mem_of_getElem? h
      simp only [frames_standard, List.mem_toArray, List.mem_singleton] at mem
      simp [parent?, h, mem]

/-- The heap that a session starts with is sound. -/
theorem sound_standard : standard.Sound where
  hostless name respond mem := by
    obtain ⟨id, h⟩ := Array.getElem?_of_mem mem
    obtain ⟨primitive, eq⟩ := primitive_of_standard h
    cases eq
  parent_lt h := by
    rw [parent?_standard] at h
    cases h
  env_lt h := by
    obtain ⟨primitive, eq⟩ := primitive_of_standard h
    cases eq
  procedure_lt h := by
    rcases slot_of_standard h with eq | ⟨id, eq, lt⟩
    · cases eq
    · cases eq
      exact lt

/-- The root frame leads nowhere, and all its slots are assigned. -/
theorem assigned_standard : standard.Assigned (· = 0) where
  lt h := by
    refine sound_standard.reachable_lt ?_ h
    rintro _ rfl
    exact Nat.zero_lt_one
  slot _ hget := by
    refine ⟨?_, sound_standard.knows hget⟩
    rcases slot_of_standard hget with rfl | ⟨id, rfl, _⟩ <;> exact nofun

end Heap

end ScopedLisp
