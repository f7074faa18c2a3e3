import ScopedLisp.Proofs.Heap.Renaming

/-!
# ScopedLisp.Proofs.Heap.Addresses

What is led to in a heap, and what is left alone.  A frame leads to its parent and to the procedures
in its slots, a closure to its frame and to the procedures in its body.  `Heap.Leads` follows
these links from some seeds; `Heap.Complete` says that all that is led to is there, and
`Heap.Agrees` that another heap has the same at all these addresses.  Such heaps are alike, with every
address that is led to standing for itself (`Heap.Agrees.alike`).

`Heap.Confined own base heap` says that `heap` came from `base` without a change of anything that was
there already and is not `own`.
-/

namespace ScopedLisp

/-- An address of a heap. -/
inductive Address where
  | frame (f : FrameId)
  | procedure (id : ProcedureId)

/-- A value holds a procedure: it is that procedure, or a list or an array with an item that holds
it. -/
inductive Value.Holds (id : ProcedureId) : Value → Prop where
  | procedure : Holds id (.procedure id)
  | list {items : List Value} {v : Value} : v ∈ items → Holds id v → Holds id (.list items)
  | array {items : List Value} {v : Value} : v ∈ items → Holds id v → Holds id (.array items)

/-- Written code holds no procedures. -/
theorem Value.Written.not_holds {texts : String → Prop} {v : Value} (written : v.Written texts)
    (id : ProcedureId) : ¬v.Holds id := by
  intro holds
  induction holds with
  | procedure => cases written
  | list mem _ ih =>
      cases written with
      | list items => exact ih (items _ mem)
  | array _ _ _ => cases written

/-- All procedures that a value holds are among the first so many. -/
def Value.Below (bound : Nat) (v : Value) : Prop := ∀ id, v.Holds id → id < bound

namespace Value

variable {v : Value} {bound : Nat}

/-- A bound may be raised. -/
theorem Below.mono {bound' : Nat} (h : v.Below bound) (le : bound ≤ bound') : v.Below bound' :=
  fun id holds => Nat.lt_of_lt_of_le (h id holds) le

/-- A scalar holds no procedure, so any bound will do. -/
theorem below_of_scalar (h : v.Scalar) : v.Below bound := by
  rintro id holds
  cases holds <;> cases h

theorem below_procedure {id : ProcedureId} (lt : id < bound) : (procedure id).Below bound := by
  rintro _ ⟨⟩
  exact lt

theorem below_list {items : List Value} : (list items).Below bound ↔ ∀ v ∈ items, v.Below bound := by
  refine ⟨fun h v mem id holds => h id (.list mem holds), fun h id holds => ?_⟩
  cases holds with
  | list mem holds => exact h _ mem id holds

theorem below_array {items : List Value} : (array items).Below bound ↔ ∀ v ∈ items, v.Below bound := by
  refine ⟨fun h v mem id holds => h id (.array mem holds), fun h id holds => ?_⟩
  cases holds with
  | array mem holds => exact h _ mem id holds

end Value

/-- The procedures that a row of values holds. -/
def Value.heldBy (vs : List Value) : Address → Prop
  | .frame _ => False
  | .procedure id => ∃ v ∈ vs, v.Holds id

namespace Heap

/-- An address that a heap has. -/
def Has (heap : Heap) : Address → Prop
  | .frame f => f < heap.frames.size
  | .procedure id => id < heap.procedures.size

/-- The addresses that some addresses lead to. -/
inductive Leads (heap : Heap) (seeds : Address → Prop) : Address → Prop where
  | seed {a : Address} : seeds a → Leads heap seeds a
  | parent {f parent : FrameId} : Leads heap seeds (.frame f) → heap.parent? f = some parent →
      Leads heap seeds (.frame parent)
  | slot {f : FrameId} {name : String} {v : Value} {id : ProcedureId} :
      Leads heap seeds (.frame f) → heap.get? f name = some v → v.Holds id →
      Leads heap seeds (.procedure id)
  | env {id : ProcedureId} {c : Closure} : Leads heap seeds (.procedure id) →
      heap.procedures[id]? = some (.closure c) → Leads heap seeds (.frame c.env)
  | body {id id' : ProcedureId} {c : Closure} : Leads heap seeds (.procedure id) →
      heap.procedures[id]? = some (.closure c) → c.body.Holds id' → Leads heap seeds (.procedure id')

/-- All that is led to is there: parents are older than their frames, and no procedure is one of the
host. -/
structure Complete (heap : Heap) (seeds : Address → Prop) : Prop where
  frame {f : FrameId} : heap.Leads seeds (.frame f) → f < heap.frames.size
  procedure {id : ProcedureId} : heap.Leads seeds (.procedure id) → id < heap.procedures.size
  older {f parent : FrameId} : heap.Leads seeds (.frame f) → heap.parent? f = some parent → parent < f
  hostless {id : ProcedureId} {name : String} {respond : List Value → HostRequest} :
    heap.Leads seeds (.procedure id) → heap.procedures[id]? ≠ some (.host name respond)

/-- Another heap has the same frames and procedures wherever the seeds lead. -/
structure Agrees (heap : Heap) (seeds : Address → Prop) (heap' : Heap) : Prop where
  frame {f : FrameId} : heap.Leads seeds (.frame f) → heap'.frames[f]? = heap.frames[f]?
  procedure {id : ProcedureId} : heap.Leads seeds (.procedure id) →
    heap'.procedures[id]? = heap.procedures[id]?

end Heap

/-! ## Addresses and renamings -/

namespace Renaming

/-- The addresses of the first heap that have a partner. -/
def Left (ρ : Renaming) : Address → Prop
  | .frame f => ∃ f', ρ.frame f f'
  | .procedure id => ∃ id', ρ.procedure id id'

/-- The addresses of the second heap that have a partner. -/
def Right (ρ : Renaming) : Address → Prop
  | .frame f' => ∃ f, ρ.frame f f'
  | .procedure id' => ∃ id, ρ.procedure id id'

/-- Some addresses, each paired with itself. -/
def on (own : Address → Prop) : Renaming where
  frame f f' := f = f' ∧ own (.frame f)
  procedure id id' := id = id' ∧ own (.procedure id)
  frame_unique := ⟨fun _ _ _ h h' => h.1.trans h'.1.symm, fun _ _ _ h h' => h.1.symm.trans h'.1⟩
  procedure_unique := ⟨fun _ _ _ h h' => h.1.trans h'.1.symm, fun _ _ _ h h' => h.1.symm.trans h'.1⟩

theorem left_on {own : Address → Prop} {a : Address} : (on own).Left a ↔ own a := by
  cases a <;> simp [Left, on]

end Renaming

variable {ρ : Renaming} {heap heap' : Heap} {seeds : Address → Prop}

/-- What a related option holds has a partner. -/
theorem exists_of_rel_some {α β : Type} {R : α → β → Prop} {x : Option α} {y : Option β}
    (h : Option.Rel R x y) {a : α} (hx : x = some a) : ∃ b, R a b := by
  cases h with
  | none => cases hx
  | some h =>
      cases hx
      exact ⟨_, h⟩

/-- A member of a related row has a partner. -/
theorem exists_of_forall₂_mem {α β : Type} {R : α → β → Prop} {as : List α} {bs : List β}
    (h : List.Forall₂ R as bs) {a : α} (mem : a ∈ as) : ∃ b, R a b := by
  induction h with
  | nil => cases mem
  | cons h _ ih =>
      cases mem with
      | head => exact ⟨_, h⟩
      | tail _ mem => exact ih mem

/-- What an alike value holds has a partner. -/
theorem Value.Alike.left_of_holds {v w : Value} (h : v.Alike ρ w) {id : ProcedureId}
    (holds : v.Holds id) : ρ.Left (.procedure id) := by
  induction holds generalizing w with
  | procedure =>
      cases h with
      | procedure h => exact ⟨_, h⟩
      | flat _ other => exact absurd rfl (other _)
  | list mem _ ih =>
      cases h with
      | list h =>
          obtain ⟨w, hw⟩ := exists_of_forall₂_mem h mem
          exact ih hw
      | flat items _ => cases items
  | array mem _ ih =>
      cases h with
      | array h =>
          obtain ⟨w, hw⟩ := exists_of_forall₂_mem h mem
          exact ih hw
      | flat items _ => cases items

mutual
/-- A value is like itself if each procedure in it is paired with itself. -/
theorem Value.alike_self : ∀ v : Value, (∀ id, v.Holds id → ρ.procedure id id) → v.Alike ρ v
  | .procedure _, h => .procedure (h _ .procedure)
  | .list items, h => .list (Value.alike_selfs items fun _ mem id holds => h id (.list mem holds))
  | .array items, h => .array (Value.alike_selfs items fun _ mem id holds => h id (.array mem holds))
  | .number _, _ | .bool _, _ | .symbol _, _ | .unassigned, _ | .nothing, _ | .string _, _
  | .object .., _ | .atom _, _ => .flat rfl nofun

/-- Values in a row are alike to themselves if the procedures in them are kept. -/
theorem Value.alike_selfs : ∀ vs : List Value, (∀ v ∈ vs, ∀ id, v.Holds id → ρ.procedure id id) →
    List.Forall₂ (Value.Alike ρ) vs vs
  | [], _ => .nil
  | v :: vs, h =>
    .cons (Value.alike_self v (h v List.mem_cons_self))
      (Value.alike_selfs vs fun v mem => h v (List.mem_cons_of_mem _ mem))
end

namespace Heap

/-! ## Complete heaps -/

/-- A procedure that is there is among the addresses that all addresses of the heap lead to. -/
theorem leads_of_getElem? {id : ProcedureId} {p : Procedure} (h : heap.procedures[id]? = some p) :
    heap.Leads heap.Has (.procedure id) :=
  .seed (Array.getElem?_eq_some_iff.mp h).1

namespace Complete

/-- From addresses that are there only such are led to, if every parent is older than its frames, every
closure is of a frame of the heap, slots and bodies hold only procedures of the heap, and none is one of a
host. -/
theorem of_links (hostless : heap.Hostless)
    (parent : ∀ {f parent : FrameId}, heap.parent? f = some parent → parent < f)
    (slot : ∀ {f : FrameId} {name : String} {v : Value} {id : ProcedureId},
      heap.get? f name = some v → v.Holds id → id < heap.procedures.size)
    (env : ∀ {id : ProcedureId} {c : Closure}, heap.procedures[id]? = some (.closure c) →
      c.env < heap.frames.size)
    (body : ∀ {id id' : ProcedureId} {c : Closure}, heap.procedures[id]? = some (.closure c) →
      c.body.Holds id' → id' < heap.procedures.size)
    (exist : ∀ a, seeds a → heap.Has a) : heap.Complete seeds := by
  have has : ∀ a, heap.Leads seeds a → heap.Has a := by
    intro a leads
    induction leads with
    | seed h => exact exist _ h
    | parent _ h ih => exact Nat.lt_trans (parent h) ih
    | slot _ h holds _ => exact slot h holds
    | env _ h _ => exact env h
    | body _ h holds _ => exact body h holds
  exact {
    frame := fun leads => has _ leads
    procedure := fun leads => has _ leads
    older := fun _ h => parent h
    hostless := fun _ h => hostless _ _ (Array.mem_of_getElem? h) }

/-- In a complete heap the addresses lead nowhere but to each other. -/
theorem leads_eq (complete : heap.Complete heap.Has) : heap.Leads heap.Has = heap.Has := by
  funext a
  refine propext ⟨fun leads => ?_, .seed⟩
  cases a with
  | frame f => exact complete.frame leads
  | procedure id => exact complete.procedure leads

/-- In a heap that is complete with all of its addresses no procedure is the host's. -/
theorem all_hostless (complete : heap.Complete heap.Has) : heap.Hostless := by
  intro name respond mem
  obtain ⟨id, there⟩ := Array.getElem?_of_mem mem
  exact complete.hostless (leads_of_getElem? there) there

/-- The frame of a closure is one of a complete heap. -/
theorem env_lt (complete : heap.Complete heap.Has) {id : ProcedureId} {c : Closure}
    (h : heap.procedures[id]? = some (.closure c)) : c.env < heap.frames.size :=
  complete.frame ((leads_of_getElem? h).env h)

end Complete

/-! ## Grounded heaps -/

/-- All that a heap mentions is in it. -/
structure Grounded (heap : Heap) : Prop where
  parent {f parent : FrameId} : heap.parent? f = some parent → parent < heap.frames.size
  slot {frame : Frame} {slot : String × Value} {id : ProcedureId} : frame ∈ heap.frames →
    slot ∈ frame.slots → slot.2.Holds id → id < heap.procedures.size
  env {c : Closure} : .closure c ∈ heap.procedures → c.env < heap.frames.size
  body {c : Closure} {id : ProcedureId} : .closure c ∈ heap.procedures → c.body.Holds id →
    id < heap.procedures.size

/-- What is new in a heap cannot be reached from what is old, if that is as it was. -/
theorem Grounded.has_of_leads {after : Heap} (grounded : heap.Grounded)
    (frames : ∀ f < heap.frames.size, after.frames[f]? = heap.frames[f]?)
    (procedures : ∀ id < heap.procedures.size, after.procedures[id]? = heap.procedures[id]?)
    {a : Address} (leads : after.Leads heap.Has a) : heap.Has a := by
  induction leads with
  | seed h => exact h
  | parent _ h ih =>
      rw [parent?_congr (frames _ ih)] at h
      exact grounded.parent h
  | slot _ h holds ih =>
      rw [get?_congr (frames _ ih)] at h
      obtain ⟨frame, there, h⟩ := Option.bind_eq_some_iff.mp h
      obtain ⟨pre, post, eq, _⟩ := List.lookup_eq_some_iff.mp h
      have mem : (_, _) ∈ frame.slots := eq ▸ List.mem_append_right pre List.mem_cons_self
      exact grounded.slot (Array.mem_of_getElem? there) mem holds
  | env _ h ih =>
      rw [procedures _ ih] at h
      exact grounded.env (Array.mem_of_getElem? h)
  | body _ h holds ih =>
      rw [procedures _ ih] at h
      exact grounded.body (Array.mem_of_getElem? h) holds

/-! ## Alike heaps -/

/-- What partners lead to has partners. -/
theorem Alike.left_of_leads (alike : heap.Alike ρ heap') (hseeds : ∀ a, seeds a → ρ.Left a)
    {a : Address} (leads : heap.Leads seeds a) : ρ.Left a := by
  induction leads with
  | seed h => exact hseeds _ h
  | parent _ hparent ih =>
      obtain ⟨f', hf⟩ := ih
      exact exists_of_rel_some (alike.parent? hf) hparent
  | slot _ hget holds ih =>
      obtain ⟨f', hf⟩ := ih
      obtain ⟨w, hw⟩ := exists_of_rel_some (alike.get? hf _) hget
      exact hw.left_of_holds holds
  | env _ hc ih =>
      obtain ⟨id', hid⟩ := ih
      obtain ⟨p, q, hp, hq, hpq⟩ := alike.procedure hid
      cases hp.symm.trans hc
      cases hpq with
      | closure _ _ env _ => exact ⟨_, env⟩
  | body _ hc holds ih =>
      obtain ⟨id', hid⟩ := ih
      obtain ⟨p, q, hp, hq, hpq⟩ := alike.procedure hid
      cases hp.symm.trans hc
      cases hpq with
      | closure _ body _ _ => exact body.left_of_holds holds

/-- The root of a frame with a partner has a partner too, and no parent. -/
theorem Alike.left_root (alike : heap.Alike ρ heap') {f : FrameId} (h : ρ.Left (.frame f)) :
    ρ.Left (.frame (heap.root f)) ∧ heap.parent? (heap.root f) = none := by
  obtain ⟨f', hf⟩ := h
  have walk : heap.Walk f (heap.chain f) := alike.walk_chainWithin hf (Nat.lt_succ_self f)
  exact ⟨exists_of_forall₂_mem (alike.chain hf) (List.mem_of_getLast? walk.getLast?_chain), walk.parent?_root⟩

/-- A complete heap is like every heap that agrees with it. -/
theorem Agrees.alike (agrees : heap.Agrees seeds heap') (complete : heap.Complete seeds) :
    heap.Alike (.on (heap.Leads seeds)) heap' where
  frame {f _} h := by
    obtain ⟨rfl, leads⟩ := h
    obtain ⟨frame, there⟩ : ∃ frame, heap.frames[f]? = some frame :=
      ⟨_, Array.getElem?_eq_getElem (complete.frame leads)⟩
    refine ⟨frame, frame, there, (agrees.frame leads).trans there, ?_, rfl, fun name => ?_⟩
    · cases hp : frame.parent with
      | none => exact .none
      | some parent =>
          have hp : heap.parent? f = some parent := by simp only [parent?, there, Option.bind_some, hp]
          exact .some ⟨rfl, leads.parent hp⟩
    · cases hv : frame.get? name with
      | none => exact .none
      | some v =>
          have hv : heap.get? f name = some v := by simp only [Heap.get?, there, Option.bind_some, hv]
          exact .some (v.alike_self fun id holds => ⟨rfl, leads.slot hv holds⟩)
  procedure {id _} h := by
    obtain ⟨rfl, leads⟩ := h
    obtain ⟨procedure, there⟩ : ∃ procedure, heap.procedures[id]? = some procedure :=
      ⟨_, Array.getElem?_eq_getElem (complete.procedure leads)⟩
    refine ⟨procedure, procedure, there, (agrees.procedure leads).trans there, ?_⟩
    cases procedure with
    | closure c =>
        have body : c.body.Alike (.on (heap.Leads seeds)) c.body :=
          c.body.alike_self fun id holds => ⟨rfl, leads.body there holds⟩
        exact .closure rfl body ⟨rfl, leads.env there⟩ rfl
    | primitive name p => exact .primitive
    | host name respond => exact absurd there (complete.hostless leads)
  older h := complete.older h.2
  older' {f _ _} h hparent := by
    obtain ⟨rfl, leads⟩ := h
    rw [parent?_congr (agrees.frame leads)] at hparent
    exact complete.older leads hparent

/-! ## What is left alone -/

/-- Of what was there in `base`, only what is `own` may have changed. -/
structure Confined (own : Address → Prop) (base heap : Heap) : Prop where
  frames_le : base.frames.size ≤ heap.frames.size
  procedures_le : base.procedures.size ≤ heap.procedures.size
  frame {f : FrameId} : f < base.frames.size → ¬own (.frame f) →
    heap.frames[f]? = base.frames[f]?
  procedure {id : ProcedureId} : id < base.procedures.size → ¬own (.procedure id) →
    heap.procedures[id]? = base.procedures[id]?

namespace Confined

variable {own : Address → Prop} {base : Heap}

theorem refl (own : Address → Prop) (heap : Heap) : Confined own heap heap :=
  ⟨Nat.le_refl _, Nat.le_refl _, fun _ _ => rfl, fun _ _ => rfl⟩

/-- Nothing is lost. -/
theorem has (confined : Confined own base heap) {a : Address} (h : base.Has a) : heap.Has a := by
  cases a with
  | frame f => exact Nat.lt_of_lt_of_le h confined.frames_le
  | procedure id => exact Nat.lt_of_lt_of_le h confined.procedures_le

/-- A new frame touches nothing of the base. -/
theorem newFrame (confined : Confined own base heap) (parent : Option FrameId)
    (slots : List (String × Value)) : Confined own base (heap.newFrame parent slots).2 where
  frames_le := Nat.le_trans confined.frames_le (extends_newFrame heap parent slots).frames_le
  procedures_le := confined.procedures_le
  frame lt other := by
    rw [getElem?_frames_newFrame (Nat.lt_of_lt_of_le lt confined.frames_le)]
    exact confined.frame lt other
  procedure := confined.procedure

/-- A new procedure touches nothing of the base. -/
theorem newProcedure (confined : Confined own base heap) (p : Procedure) :
    Confined own base (heap.newProcedure p).2 where
  frames_le := confined.frames_le
  procedures_le := by
    refine Nat.le_trans confined.procedures_le ?_
    simp [Heap.newProcedure]
  frame := confined.frame
  procedure {id} lt other := by
    have there : id < heap.procedures.size := Nat.lt_of_lt_of_le lt confined.procedures_le
    simp only [Heap.newProcedure, Array.getElem?_push, if_neg (Nat.ne_of_lt there)]
    exact confined.procedure lt other

/-- A write to an own or a new frame touches nothing else of the base. -/
theorem write (confined : Confined own base heap) {f : FrameId}
    (hf : own (.frame f) ∨ base.frames.size ≤ f) (name : String) (v : Value) :
    Confined own base (heap.write f name v) where
  frames_le := by
    rw [size_frames_write]
    exact confined.frames_le
  procedures_le := confined.procedures_le
  frame {g} lt other := by
    have ne : g ≠ f := by
      rintro rfl
      rcases hf with hf | le
      · exact other hf
      · exact Nat.lt_irrefl _ (Nat.lt_of_lt_of_le lt le)
    rw [getElem?_frames_write ne]
    exact confined.frame lt other
  procedure := confined.procedure

/-- To name an own or a new closure touches nothing else of the base. -/
theorem nameClosure (confined : Confined own base heap) {id : ProcedureId}
    (hid : own (.procedure id) ∨ base.procedures.size ≤ id) (name : String) :
    Confined own base (heap.nameClosure id name) where
  frames_le := confined.frames_le
  procedures_le := Nat.le_trans confined.procedures_le (extends_nameClosure heap id name).procedures_le
  frame := confined.frame
  procedure {other} lt notOwn := by
    have ne : id ≠ other := by
      rintro rfl
      rcases hid with hid | le
      · exact notOwn hid
      · exact Nat.lt_irrefl _ (Nat.lt_of_lt_of_le lt le)
    simp only [Heap.nameClosure, Array.getElem?_modify, if_neg ne]
    exact confined.procedure lt notOwn

end Confined

end Heap

end ScopedLisp
