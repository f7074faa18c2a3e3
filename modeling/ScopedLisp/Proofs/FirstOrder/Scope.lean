import ScopedLisp.Evaluation
import ScopedLisp.Proofs.FirstOrder.Operation
import ScopedLisp.Proofs.Heap.Lookup

/-!
# ScopedLisp.Proofs.FirstOrder.Scope

Frames that hold the values of variables.  A frame *shows* values for variables if each variable can be looked up
from it and means its value, and each primitive can be looked up under its own name (`Shows`).  Variables that are
bound together go into a new frame (`Shows.newFrame`), and one after the other they are written into the frame at hand
(`Shows.write`); what happens in frames that come later makes no difference (`Shows.keeps`).
-/

namespace ScopedLisp.FirstOrder

/-! ## Values in a row -/

/-- The values of variables as the interpreter represents them. -/
def Env.values {Γ : Context} : Env Γ → List Value
  | .nil => []
  | @Env.cons _ _ τ v ρ => τ.value v :: ρ.values

variable {Γ Δ : Context} {σ τ : Ty} {x : Variable} {heap after : Heap} {f bound : Nat}

/-- A number or a truth value is not the mark of an unassigned slot. -/
theorem Ty.value_ne_unassigned (v : τ.Den) : τ.value v ≠ .unassigned := by
  cases τ <;> exact nofun

/-- A variable means its value in front, or what it means behind. -/
theorem Env.lookup_values (δ : Env Δ) (ρ : Env Γ) (position : Position (Δ ++ Γ) x τ) :
    (Δ.names.zip δ.values).lookup x.name = some (τ.value ((δ.append ρ).get position)) ∨
      (Δ.names.zip δ.values).lookup x.name = none ∧
        ∃ behind : Position Γ x τ, (δ.append ρ).get position = ρ.get behind := by
  induction δ with
  | nil => exact Or.inr ⟨rfl, position, rfl⟩
  | @cons Δ y υ v δ ih =>
      cases position with
      | here => exact Or.inl List.lookup_cons_self
      | there ne position =>
          have skip : (Context.names ((y, υ) :: Δ)).zip (Env.cons v δ : Env ((y, υ) :: Δ)).values =
              (y.name, υ.value v) :: Δ.names.zip δ.values := rfl
          rw [skip, List.lookup_cons, beq_false_of_ne ne]
          exact ih position

/-- No variable has the name of a primitive. -/
theorem Context.name_notMem_names (p : Primitive) : p.name ∉ Γ.names := by
  intro mem
  obtain ⟨⟨x, τ⟩, -, eq⟩ := List.mem_map.mp mem
  have found := p.ofName?_name
  rw [← eq, x.notPrimitive] at found
  cases found

/-- No variable has the name of a primitive. -/
theorem Env.lookup_primitive (δ : Env Δ) (p : Primitive) : (Δ.names.zip δ.values).lookup p.name = none := by
  refine List.lookup_eq_none_iff.mpr fun slot mem => ?_
  have ne : p.name ≠ slot.1 := fun eq => Context.name_notMem_names p (eq ▸ (List.of_mem_zip mem).1)
  simpa using ne

/-! ## What a heap keeps -/

/-- What a heap keeps of another: the frames up to some, and the procedures. -/
structure Keeps (bound : Nat) (before after : Heap) : Prop where
  frame : ∀ f < bound, after.frames[f]? = before.frames[f]?
  size_le : before.frames.size ≤ after.frames.size
  procedures : after.procedures = before.procedures

theorem Keeps.refl (bound : Nat) (heap : Heap) : Keeps bound heap heap := ⟨fun _ _ => rfl, Nat.le_refl _, rfl⟩

/-- What is kept twice is kept. -/
theorem Keeps.trans {mid : Heap} (first : Keeps bound heap mid) (second : Keeps bound mid after) :
    Keeps bound heap after where
  frame f lt := (second.frame f lt).trans (first.frame f lt)
  size_le := Nat.le_trans first.size_le second.size_le
  procedures := second.procedures.trans first.procedures

/-- What is kept below a bound is kept below a lower one. -/
theorem Keeps.of_le {less : Nat} (keeps : Keeps bound heap after) (le : less ≤ bound) : Keeps less heap after :=
  ⟨fun f lt => keeps.frame f (Nat.lt_of_lt_of_le lt le), keeps.size_le, keeps.procedures⟩

/-- A new frame keeps the old ones. -/
theorem keeps_newFrame (le : bound ≤ heap.frames.size) (parent : Option FrameId) (slots : List (String × Value)) :
    Keeps bound heap (heap.newFrame parent slots).2 where
  frame _ lt := Heap.getElem?_frames_newFrame (Nat.lt_of_lt_of_le lt le) parent slots
  size_le := (Heap.extends_newFrame heap parent slots).frames_le
  procedures := rfl

/-- A write keeps the frames below the one written. -/
theorem keeps_write (le : bound ≤ f) (name : String) (v : Value) : Keeps bound heap (heap.write f name v) where
  frame _ lt := Heap.getElem?_frames_write (Nat.ne_of_lt (Nat.lt_of_lt_of_le lt le)) name v
  size_le := Nat.le_of_eq (Heap.size_frames_write ..).symm
  procedures := rfl

/-! ## What a frame shows -/

/-- From a frame, variables mean their values, and primitives themselves. -/
structure Shows (heap : Heap) (f : FrameId) (ρ : Env Γ) : Prop where
  rooted : heap.Rooted f
  value {x : Variable} {τ : Ty} (position : Position Γ x τ) :
    heap.lookup f x.name = .ok (τ.value (ρ.get position))
  procedure (p : Primitive) : ∃ id, heap.lookup f p.name = .ok (.procedure id) ∧
    heap.procedures[id]? = some (.primitive p.name p)

variable {ρ : Env Γ}

/-- What becomes of other frames makes no difference. -/
theorem Shows.keeps (shows_ρ : Shows heap f ρ) (keeps : Keeps bound heap after) (lt : f < bound) : Shows after f ρ := by
  have same : ∀ g ≤ f, after.frames[g]? = heap.frames[g]? := fun g le => keeps.frame g (Nat.lt_of_le_of_lt le lt)
  refine ⟨shows_ρ.rooted.stays same, fun position => ?_, fun p => ?_⟩
  · rw [shows_ρ.rooted.lookup_congr same, shows_ρ.value]
  · rw [shows_ρ.rooted.lookup_congr same, keeps.procedures]
    exact shows_ρ.procedure p

/-- A new frame shows the variables that it was made with, and those that were shown before. -/
theorem Shows.newFrame (shows_ρ : Shows heap f ρ) (δ : Env Δ) :
    Shows (heap.newFrame (some f) (Δ.names.zip δ.values)).2 heap.frames.size (δ.append ρ) := by
  refine ⟨shows_ρ.rooted.newFrame _, fun position => ?_, fun p => ?_⟩
  · rcases δ.lookup_values ρ position with own | ⟨free, behind, eq⟩
    · exact Heap.lookup_of_get? ((Heap.get?_newFrame_own ..).trans own) (Ty.value_ne_unassigned _)
    · rw [shows_ρ.rooted.lookup_newFrame free, shows_ρ.value, eq]
  · rw [shows_ρ.rooted.lookup_newFrame (δ.lookup_primitive p)]
    exact shows_ρ.procedure p

/-- A written variable hides the others of its name. -/
theorem Shows.write (shows_ρ : Shows heap f ρ) (x : Variable) (v : τ.Den) :
    Shows (heap.write f x.name (τ.value v)) f (.cons v ρ : Env ((x, τ) :: Γ)) := by
  refine ⟨shows_ρ.rooted.write f x.name _, fun position => ?_, fun p => ?_⟩
  · cases position with
    | here =>
        exact Heap.lookup_of_get? (Heap.get?_write_own heap shows_ρ.rooted.lt_size _ _) (Ty.value_ne_unassigned v)
    | there ne position => rw [Heap.lookup_write_of_ne ne, shows_ρ.value position]; rfl
  · have ne : p.name ≠ x.name := fun eq =>
      Context.name_notMem_names (Γ := [(x, τ)]) p (List.mem_singleton.mpr eq)
    rw [Heap.lookup_write_of_ne ne]
    exact shows_ρ.procedure p

end ScopedLisp.FirstOrder
