import Mathlib.Data.List.Nodup
import ScopedLisp.Proofs.Heap.Growth

/-!
# ScopedLisp.Proofs.Heap.Naming

How closures get their names.  `Heap.Develops` follows a heap change by change, and keeps a record of the
closures that take a name: a closure without a name takes one, and is bound to it in the frame that it was made in.

Nothing else happens to a procedure that is there, so each closure is in the record once at most, and keeps
what it has (`Heap.Develops.namedOnce`).
-/

namespace ScopedLisp.Heap

variable {may may' : ProcedureId → Closure → String → Prop} {before mid after : Heap}
  {names names' : List (ProcedureId × String)}

/-- The changes from one heap to another one: frames and closures are made, slots are written, and closures take
names that they `may` take.  The names are recorded in their order. -/
inductive Develops (may : ProcedureId → Closure → String → Prop) (before : Heap) :
    List (ProcedureId × String) → Heap → Prop where
  | start : Develops may before [] before
  | newFrame {names : List (ProcedureId × String)} {mid : Heap} (parent : FrameId) (slots : List (String × Value)) :
      Develops may before names mid → Develops may before names (mid.newFrame (some parent) slots).2
  /-- A closure is made without a name. -/
  | newClosure {names : List (ProcedureId × String)} {mid : Heap} {c : Closure} : c.name = none →
      Develops may before names mid → Develops may before names (mid.newProcedure (.closure c)).2
  | write {names : List (ProcedureId × String)} {mid : Heap} (f : FrameId) (name : String) (v : Value) :
      Develops may before names mid → Develops may before names (mid.write f name v)
  /-- A closure without a name takes one, and is bound to it in its own frame. -/
  | named {names : List (ProcedureId × String)} {mid : Heap} {id : ProcedureId} {c : Closure} {name : String} :
      mid.procedures[id]? = some (.closure c) → c.name = none → may id c name → Develops may before names mid →
      Develops may before (names ++ [(id, name)]) ((mid.nameClosure id name).write c.env name (.procedure id))

theorem Develops.trans (first : Develops may before names mid) (second : Develops may mid names' after) :
    Develops may before (names ++ names') after := by
  induction second with
  | start => rwa [List.append_nil]
  | newFrame parent slots _ ih => exact ih.newFrame parent slots
  | newClosure unnamed _ ih => exact ih.newClosure unnamed
  | write f name v _ ih => exact ih.write f name v
  | named there unnamed allowed _ ih =>
      rw [← List.append_assoc]
      exact ih.named there unnamed allowed

theorem Develops.mono (develops : Develops may before names after)
    (imp : ∀ id c name, may id c name → may' id c name) : Develops may' before names after := by
  induction develops with
  | start => exact .start
  | newFrame parent slots _ ih => exact ih.newFrame parent slots
  | newClosure unnamed _ ih => exact ih.newClosure unnamed
  | write f name v _ ih => exact ih.write f name v
  | named there unnamed allowed _ ih => exact ih.named there unnamed (imp _ _ _ allowed)

/-- What a record of names says about the procedures: each closure in it is there once, took its name when it had
none, and has it afterwards; a procedure that is not in it is what it was, or a new closure without a name. -/
structure NamedOnce (may : ProcedureId → Closure → String → Prop) (before : Heap)
    (names : List (ProcedureId × String)) (after : Heap) : Prop where
  nodup : (names.map (·.1)).Nodup
  frames_le : before.frames.size ≤ after.frames.size
  procedures_le : before.procedures.size ≤ after.procedures.size
  kept {id : ProcedureId} : id ∉ names.map (·.1) → id < before.procedures.size →
    after.procedures[id]? = before.procedures[id]?
  made {id : ProcedureId} {p : Procedure} : id ∉ names.map (·.1) → before.procedures.size ≤ id →
    after.procedures[id]? = some p → ∃ c : Closure, c.name = none ∧ p = .closure c
  named {id : ProcedureId} {name : String} : (id, name) ∈ names → ∃ c : Closure, c.name = none ∧ may id c name ∧
    (id < before.procedures.size → before.procedures[id]? = some (.closure c)) ∧
    after.procedures[id]? = some (.closure { c with name := some name })

theorem getElem?_procedures_newProcedure {id : ProcedureId} (lt : id < mid.procedures.size) (p : Procedure) :
    (mid.newProcedure p).2.procedures[id]? = mid.procedures[id]? := by
  simp only [newProcedure, Array.getElem?_push, if_neg (Nat.ne_of_lt lt)]

theorem getElem?_procedures_nameClosure_of_closure {id : ProcedureId} {c : Closure}
    (there : mid.procedures[id]? = some (.closure c)) (name : String) (other : ProcedureId) :
    (mid.nameClosure id name).procedures[other]? =
      if other = id then some (.closure { c with name := some name }) else mid.procedures[other]? := by
  simp only [nameClosure, Array.getElem?_modify]
  by_cases same : other = id
  · subst same
    rw [if_pos rfl, if_pos rfl, there, Option.map_some]
  · rw [if_neg same, if_neg (Ne.symm same)]

namespace NamedOnce

/-- Where the procedures stay as they are, so does what the record says about them. -/
theorem of_procedures_eq (namedOnce : NamedOnce may before names mid) (frames_le : mid.frames.size ≤ after.frames.size)
    (same : after.procedures = mid.procedures) : NamedOnce may before names after := by
  refine ⟨namedOnce.nodup, Nat.le_trans namedOnce.frames_le frames_le, ?_, ?_, ?_, ?_⟩ <;> rw [same]
  · exact namedOnce.procedures_le
  · exact namedOnce.kept
  · exact namedOnce.made
  · exact namedOnce.named

/-- A new closure without a name is not in the record. -/
theorem newClosure (namedOnce : NamedOnce may before names mid) {c : Closure} (unnamed : c.name = none) :
    NamedOnce may before names (mid.newProcedure (.closure c)).2 := by
  have more := (extends_newClosure mid c).procedures_le
  refine ⟨namedOnce.nodup, namedOnce.frames_le, Nat.le_trans namedOnce.procedures_le more, fun other lt => ?_,
    fun other le there => ?_, fun mem => ?_⟩
  · rw [getElem?_procedures_newProcedure (Nat.lt_of_lt_of_le lt namedOnce.procedures_le)]
    exact namedOnce.kept other lt
  · rcases procedure_of_newProcedure there with rfl | there
    · exact ⟨c, unnamed, rfl⟩
    · exact namedOnce.made other le there
  · obtain ⟨d, unnamed, allowed, old, there⟩ := namedOnce.named mem
    refine ⟨d, unnamed, allowed, old, ?_⟩
    rw [getElem?_procedures_newProcedure (Array.getElem?_eq_some_iff.mp there).1]
    exact there

/-- A closure in the record has a name, so one that has none is not in it. -/
theorem notMem_of_unnamed (namedOnce : NamedOnce may before names mid) {id : ProcedureId} {c : Closure}
    (there : mid.procedures[id]? = some (.closure c)) (unnamed : c.name = none) : id ∉ names.map (·.1) := by
  intro mem
  obtain ⟨⟨_, old⟩, recorded, rfl⟩ := List.mem_map.mp mem
  obtain ⟨d, -, -, -, there'⟩ := namedOnce.named recorded
  have eq := Procedure.closure.inj (Option.some.inj (there.symm.trans there'))
  rw [eq] at unnamed
  cases unnamed

/-- A closure that takes a name comes to the record. -/
theorem nameClosure (namedOnce : NamedOnce may before names mid) {id : ProcedureId} {c : Closure} {name : String}
    (there : mid.procedures[id]? = some (.closure c)) (unnamed : c.name = none) (allowed : may id c name) :
    NamedOnce may before (names ++ [(id, name)]) (mid.nameClosure id name) := by
  have new := namedOnce.notMem_of_unnamed there unnamed
  have procedure := getElem?_procedures_nameClosure_of_closure there name
  have others : ∀ {other}, other ∉ (names ++ [(id, name)]).map (·.1) → other ∉ names.map (·.1) ∧
      (mid.nameClosure id name).procedures[other]? = mid.procedures[other]? := by
    intro other notIn
    rw [List.map_append, List.mem_append, not_or] at notIn
    exact ⟨notIn.1, (procedure other).trans (if_neg fun eq => notIn.2 (List.mem_singleton.mpr eq))⟩
  refine ⟨?_, namedOnce.frames_le, ?_, fun {other} notIn lt => ?_, fun {other} p notIn le there' => ?_,
    fun {other} other' mem => ?_⟩
  · rw [List.map_append, List.map_singleton]
    exact List.concat_eq_append ▸ List.Nodup.concat new namedOnce.nodup
  · exact Nat.le_trans namedOnce.procedures_le (extends_nameClosure mid id name).procedures_le
  · exact (others notIn).2.trans (namedOnce.kept (others notIn).1 lt)
  · exact namedOnce.made (others notIn).1 le ((others notIn).2.symm.trans there')
  · rcases List.mem_append.mp mem with mem | mem
    · have ne : other ≠ id := fun eq => new (eq ▸ List.mem_map_of_mem mem)
      obtain ⟨d, unnamed', allowed', old, there'⟩ := namedOnce.named mem
      refine ⟨d, unnamed', allowed', old, (procedure other).trans ?_⟩
      rw [if_neg ne, there']
    · cases List.mem_singleton.mp mem
      refine ⟨c, unnamed, allowed, fun lt => ?_, (procedure id).trans (if_pos rfl)⟩
      rw [← namedOnce.kept new lt, there]

/-- What may be named is no closure of the heap before, where it may not be a closure of a frame of that heap
either. -/
theorem procedures_le_of_mem (namedOnce : NamedOnce may before names after)
    (new : ∀ id c name, may id c name → before.frames.size ≤ c.env ∨ before.procedures.size ≤ id)
    (envs : ∀ {c}, .closure c ∈ before.procedures → c.env < before.frames.size) {id : ProcedureId} {name : String}
    (mem : (id, name) ∈ names) : before.procedures.size ≤ id := by
  by_contra lt
  have lt := Nat.lt_of_not_le lt
  obtain ⟨c, -, allowed, old, -⟩ := namedOnce.named mem
  have env := envs (Array.mem_of_getElem? (old lt))
  rcases new id c name allowed with le | le
  · exact Nat.not_lt.mpr le env
  · exact Nat.not_lt.mpr le lt

/-- If only what is new is named, then every procedure of the heap before is what it was. -/
theorem procedure_eq (namedOnce : NamedOnce may before names after)
    (new : ∀ {id name}, (id, name) ∈ names → before.procedures.size ≤ id) {id : ProcedureId}
    (lt : id < before.procedures.size) : after.procedures[id]? = before.procedures[id]? := by
  refine namedOnce.kept (fun mem => ?_) lt
  obtain ⟨⟨_, name⟩, recorded, rfl⟩ := List.mem_map.mp mem
  exact Nat.not_lt.mpr (new recorded) lt

end NamedOnce

/-- **Names are given once**: the record of a development says what it should about the procedures. -/
theorem Develops.namedOnce (develops : Develops may before names after) : NamedOnce may before names after := by
  have write : ∀ {names : List (ProcedureId × String)} {mid : Heap} (f : FrameId) (name : String) (v : Value),
      NamedOnce may before names mid → NamedOnce may before names (mid.write f name v) :=
    fun f name v h => h.of_procedures_eq (Nat.le_of_eq (size_frames_write _ f name v).symm) rfl
  induction develops with
  | start =>
      refine ⟨List.nodup_nil, Nat.le_refl _, Nat.le_refl _, fun _ _ => rfl, fun _ le there => ?_, nofun⟩
      exact absurd (Array.getElem?_eq_some_iff.mp there).1 (Nat.not_lt.mpr le)
  | @newFrame names mid parent slots _ ih =>
      exact ih.of_procedures_eq (extends_newFrame mid (some parent) slots).frames_le rfl
  | newClosure unnamed _ ih => exact ih.newClosure unnamed
  | write f name v _ ih => exact write f name v ih
  | named there unnamed allowed _ ih => exact write _ _ _ (ih.nameClosure there unnamed allowed)

end ScopedLisp.Heap
