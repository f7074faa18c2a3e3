import ScopedLisp.Proofs.Evaluation.Depth
import ScopedLisp.Proofs.Heap.Addresses

/-!
# ScopedLisp.Proofs.Evaluation.Grounding

Grounded heaps stay grounded: evaluation never leaves a mention of a frame or a procedure that is not there,
not even where nobody looks for it.  The proof runs everything beside itself: what stands for itself in the
correspondence `Correspondence.grounded` is what mentions the heap alone.
-/

namespace ScopedLisp

open Evaluation

/-! ## What a heap holds -/

/-- A request that holds only the first so many procedures. -/
def HostRequest.Below (bound : Nat) : HostRequest → Prop
  | .answer v => v.Below bound
  | .define _ v => v.Below bound
  | .apply procedure args => procedure.Below bound ∧ ∀ v ∈ args, v.Below bound
  | _ => True

/-- Procedures of a host make up no procedures: a request holds what its arguments hold, or what the heap has
already. -/
def Heap.HostsGrounded (heap : Heap) : Prop :=
  ∀ name respond, .host name respond ∈ heap.procedures → ∀ bound ≥ heap.procedures.size, ∀ args : List Value,
    (∀ v ∈ args, v.Below bound) → (respond args).Below bound

namespace Heap

variable {heap : Heap}

/-! ## What is done to a grounded heap -/

namespace Grounded

variable (grounded : heap.Grounded)

include grounded

/-- A slot of a grounded heap leads only to procedures that are there. -/
theorem get? {f : FrameId} {name : String} {v : Value} (h : heap.get? f name = some v) :
    v.Below heap.procedures.size := by
  obtain ⟨frame, there, h⟩ := Option.bind_eq_some_iff.mp h
  obtain ⟨pre, post, eq, _⟩ := List.lookup_eq_some_iff.mp h
  have mem : (name, v) ∈ frame.slots := eq ▸ List.mem_append_right pre List.mem_cons_self
  exact fun id holds => grounded.slot (Array.mem_of_getElem? there) mem holds

/-- A new frame inside an existing one, with such values in its slots, keeps the heap grounded. -/
theorem newFrame {parent : FrameId} (lt : parent < heap.frames.size) {slots : List (String × Value)}
    (below : ∀ slot ∈ slots, slot.2.Below heap.procedures.size) :
    (heap.newFrame (some parent) slots).2.Grounded where
  parent {f other} h := by
    refine Nat.lt_of_lt_of_le ?_ (extends_newFrame ..).frames_le
    rw [parent?_newFrame] at h
    split at h
    · cases h
      exact lt
    · exact grounded.parent h
  slot there mem holds := by
    rcases Array.mem_push.mp there with there | rfl
    · exact grounded.slot there mem holds
    · exact below _ mem _ holds
  env there := Nat.lt_of_lt_of_le (grounded.env there) (extends_newFrame ..).frames_le
  body there holds := grounded.body there holds

/-- A new closure of an existing frame, with such code, keeps the heap grounded. -/
theorem newClosure {c : Closure} (lt : c.env < heap.frames.size) (below : c.body.Below heap.procedures.size) :
    (heap.newProcedure (.closure c)).2.Grounded where
  parent h := grounded.parent h
  slot there mem holds :=
    Nat.lt_of_lt_of_le (grounded.slot there mem holds) (extends_newClosure heap c).procedures_le
  env there := by
    rcases Array.mem_push.mp there with there | ⟨⟨⟩⟩
    · exact grounded.env there
    · exact lt
  body there holds := by
    refine Nat.lt_of_lt_of_le ?_ (extends_newClosure heap c).procedures_le
    rcases Array.mem_push.mp there with there | ⟨⟨⟩⟩
    · exact grounded.body there holds
    · exact below _ holds

/-- To name a closure keeps the heap grounded. -/
theorem nameClosure (id : ProcedureId) (name : String) : (heap.nameClosure id name).Grounded where
  parent h := grounded.parent h
  slot there mem holds :=
    Nat.lt_of_lt_of_le (grounded.slot there mem holds) (extends_nameClosure heap id name).procedures_le
  env there := by
    obtain ⟨other, there⟩ := Array.getElem?_of_mem there
    obtain ⟨old, hold, _, _, env⟩ := closure_of_nameClosure there
    rw [env]
    exact grounded.env (Array.mem_of_getElem? hold)
  body there holds := by
    obtain ⟨other, there⟩ := Array.getElem?_of_mem there
    obtain ⟨old, hold, _, body, _⟩ := closure_of_nameClosure there
    rw [body] at holds
    exact Nat.lt_of_lt_of_le (grounded.body (Array.mem_of_getElem? hold) holds)
      (extends_nameClosure heap id name).procedures_le

/-- A write of a value that leads only to procedures that are there keeps the heap grounded. -/
theorem write (f : FrameId) (name : String) {v : Value} (below : v.Below heap.procedures.size) :
    (heap.write f name v).Grounded where
  parent h := by
    rw [parent?_write] at h
    rw [size_frames_write]
    exact grounded.parent h
  slot there mem holds := by
    obtain ⟨g, there⟩ := Array.getElem?_of_mem there
    simp only [Heap.write, Array.getElem?_modify] at there
    split at there
    · obtain ⟨old, hold, rfl⟩ := Option.map_eq_some_iff.mp there
      rcases Frame.mem_setSlot mem with rfl | mem
      · exact below _ holds
      · exact grounded.slot (Array.mem_of_getElem? hold) mem holds
    · exact grounded.slot (Array.mem_of_getElem? there) mem holds
  env there := by
    rw [size_frames_write]
    exact grounded.env there
  body there holds := grounded.body there holds

end Grounded

/-- A new closure is no procedure of the host, and those that are keep to the procedures that are there. -/
theorem HostsGrounded.newClosure (hosts : heap.HostsGrounded) (c : Closure) :
    (heap.newProcedure (.closure c)).2.HostsGrounded := by
  intro name respond mem bound le
  rcases Array.mem_push.mp mem with mem | ⟨⟨⟩⟩
  exact hosts name respond mem bound (Nat.le_trans (extends_newClosure heap c).procedures_le le)

/-- To name a closure adds no procedure of the host and takes none away. -/
theorem HostsGrounded.nameClosure (hosts : heap.HostsGrounded) (id : ProcedureId) (name : String) :
    (heap.nameClosure id name).HostsGrounded := by
  intro host respond mem bound le
  exact hosts host respond (host_of_nameClosure mem) bound
    (Nat.le_trans (extends_nameClosure heap id name).procedures_le le)

end Heap

/-! ## Everything beside itself -/

/-- Rows of equal parts, each of them below a bound, are equal rows below the bound. -/
theorem forall₂_below {α : Type} {below : α → Prop} {as bs : List α} :
    List.Forall₂ (fun a b => a = b ∧ below a) as bs ↔ as = bs ∧ ∀ a ∈ as, below a := by
  constructor
  · intro h
    induction h with
    | nil => exact ⟨rfl, nofun⟩
    | cons h _ ih =>
        obtain ⟨rfl, first⟩ := h
        obtain ⟨rfl, rest⟩ := ih
        exact ⟨rfl, List.forall_mem_cons.mpr ⟨first, rest⟩⟩
  · rintro ⟨rfl, all⟩
    exact List.forall₂_same.mpr fun a mem => ⟨rfl, all a mem⟩

/-- Code that holds none but the first so many procedures stands for itself. -/
def CodePairs.below (bound : Nat) : CodePairs .refl where
  rel v w := v = w ∧ v.Below bound
  parts {v w} h := by
    obtain ⟨rfl, below⟩ := h
    cases v with
    | atom s => exact .atom rfl
    | list vs => exact .list (List.forall₂_same.mpr fun v mem => ⟨rfl, Value.below_list.mp below v mem⟩)
    | array vs => exact .array (List.forall₂_same.mpr fun v mem => ⟨rfl, Value.below_array.mp below v mem⟩)
    | _ => exact .data rfl rfl
  list h := by
    obtain ⟨rfl, below⟩ := forall₂_below.mp h
    exact ⟨rfl, Value.below_list.mpr below⟩

/-- How many frames and how many procedures there are. -/
structure Heap.Extent where
  frames : Nat
  procedures : Nat

/-- A heap of some extent, in which everything that is mentioned is there. -/
structure Heap.GroundedAt (extent : Heap.Extent) (heap : Heap) : Prop where
  grounded : heap.Grounded
  hosts : heap.HostsGrounded
  frames : heap.frames.size = extent.frames
  procedures : heap.procedures.size = extent.procedures

/-- Grounded heaps stand for themselves, and so does all that mentions what is there. -/
def Correspondence.grounded : Correspondence where
  World := Heap.Extent
  later before after := before.frames ≤ after.frames ∧ before.procedures ≤ after.procedures
  heaps extent h h' := h = h' ∧ h.GroundedAt extent
  frame extent f f' := f = f' ∧ f < extent.frames
  site extent f f' := f = f' ∧ f < extent.frames
  value extent v v' := v = v' ∧ v.Below extent.procedures
  spelling := .refl
  code extent := .below extent.procedures
  error e e' := e = e'

namespace Correspondence

variable {extent : Heap.Extent} {heap : Heap} {bound : Nat}

/-- A body that stands for another is that one, and leads only below the bound. -/
theorem below_of_body {e e' : Value} (h : (CodePairs.below bound).Body e e') : e = e' ∧ e.Below bound := by
  cases h with
  | code h => exact h
  | sequence h =>
      obtain ⟨rfl, below⟩ := forall₂_below.mp h
      refine ⟨rfl, Value.below_list.mpr (List.forall_mem_cons.mpr ⟨?_, below⟩)⟩
      rintro _ ⟨⟩

/-- Closures that stand for one another, names included, are one closure, made inside the heap. -/
theorem closure_eq_below {c d : Closure} (pair : grounded.ClosurePair extent c d)
    (name : Option.Rel (fun s t => s = t) c.name d.name) :
    c = d ∧ c.env < extent.frames ∧ c.body.Below extent.procedures := by
  obtain ⟨eq, below⟩ := below_of_body pair.body
  refine ⟨closure_eq ⟨pair.formals, .code eq, pair.env.1⟩ name, pair.env.2, below⟩

/-- A request that leads only to what is there stands for itself. -/
theorem requestPair_below {request : HostRequest} (below : request.Below extent.procedures) :
    grounded.RequestPair extent request request := by
  cases request with
  | answer v => exact .answer ⟨rfl, below⟩
  | fail e => exact .fail rfl
  | lookup name => exact .lookup rfl
  | define name v => exact .define rfl ⟨rfl, below⟩
  | depth => exact .depth
  | apply procedure args => exact .apply ⟨rfl, below.1⟩ (forall₂_below.mpr ⟨rfl, below.2⟩)

/-- Evaluation treats a grounded heap beside itself as a correspondence asks: each single step keeps it grounded. -/
theorem grounded_lawful : grounded.Lawful where
  later_refl _ := ⟨Nat.le_refl _, Nat.le_refl _⟩
  later_trans first second := ⟨Nat.le_trans first.1 second.1, Nat.le_trans first.2 second.2⟩
  frame_later later h := ⟨h.1, Nat.lt_of_lt_of_le h.2 later.1⟩
  value_later later h := ⟨h.1, h.2.mono later.2⟩
  code_later later h := ⟨h.1, h.2.mono later.2⟩
  site_of_frame h := h
  scalar h := ⟨rfl, Value.below_of_scalar h⟩
  unassigned := ⟨rfl, fun _ holds => by cases holds⟩
  isTrue h := congrArg _ h.1
  procedureId {_ v _} h := h.1 ▸ procedureId_refl v
  newFrame {extent h _ f _ slots slots'} heaps hf hslots := by
    obtain ⟨rfl, here⟩ := heaps
    obtain ⟨rfl, lt⟩ := hf
    have same : List.Forall₂ (fun s t => s = t ∧ s.2.Below extent.procedures) slots slots' :=
      hslots.imp fun _ _ pair => ⟨Prod.ext pair.1 pair.2.1, pair.2.2⟩
    obtain ⟨rfl, below⟩ := forall₂_below.mp same
    have sizes : (h.frames.push ⟨some f, slots⟩).size = h.frames.size + 1 := Array.size_push _
    refine ⟨⟨extent.frames + 1, extent.procedures⟩, ⟨Nat.le_succ _, Nat.le_refl _⟩, ⟨rfl, ?_⟩, rfl, ?_⟩
    · exact ⟨here.grounded.newFrame (here.frames ▸ lt) (here.procedures ▸ below), here.hosts,
        sizes.trans (congrArg Nat.succ here.frames), here.procedures⟩
    · rw [here.frames]
      exact Nat.lt_succ_self _
  newClosure {extent h _ c d} heaps pair name := by
    obtain ⟨rfl, here⟩ := heaps
    obtain ⟨rfl, lt, below⟩ := closure_eq_below pair name
    have sizes : (h.procedures.push (.closure c)).size = h.procedures.size + 1 := Array.size_push _
    refine ⟨⟨extent.frames, extent.procedures + 1⟩, ⟨Nat.le_refl _, Nat.le_succ _⟩, ⟨rfl, ?_⟩, rfl, ?_⟩
    · exact ⟨here.grounded.newClosure (here.frames ▸ lt) (here.procedures ▸ below), here.hosts.newClosure c,
        here.frames, sizes.trans (congrArg Nat.succ here.procedures)⟩
    · rw [here.procedures]
      exact Value.below_procedure (Nat.lt_succ_self _)
  nameClosure {_ h _ id _ s _} heaps hv text := by
    obtain ⟨rfl, here⟩ := heaps
    obtain ⟨same, _⟩ := hv
    cases same
    cases text
    exact ⟨rfl, here.grounded.nameClosure id s, here.hosts.nameClosure id s, here.frames,
      (Array.size_modify ..).trans here.procedures⟩
  write {_ h _ f _ s _ v _} heaps hf text hv := by
    obtain ⟨rfl, here⟩ := heaps
    obtain ⟨rfl, _⟩ := hf
    obtain ⟨rfl, below⟩ := hv
    cases text
    refine ⟨rfl, here.grounded.write f s (here.procedures ▸ below), here.hosts, ?_, here.procedures⟩
    exact (h.size_frames_write f s v).trans here.frames
  lookup {_ h _ f _ s _} heaps hf text := by
    obtain ⟨rfl, here⟩ := heaps
    obtain ⟨rfl, _⟩ := hf
    cases text
    cases found : h.lookup f s with
    | ok v =>
        obtain ⟨g, _, hget, _⟩ := Heap.lookup_eq_ok_iff.mp found
        exact .ok ⟨rfl, here.procedures ▸ here.grounded.get? hget⟩
    | error e => exact .error rfl
  depth heaps hf := by rw [heaps.1, hf.1]
  isFresh heaps hf hv := by rw [heaps.1, hf.1, hv.1]
  procedure {_ h _ v _} heaps hv := by
    obtain ⟨rfl, here⟩ := heaps
    obtain ⟨rfl, _⟩ := hv
    cases found : h.procedure? v with
    | none => exact .none
    | some r =>
        obtain ⟨id, rfl, there⟩ := Heap.procedure?_eq_some_iff.mp found
        have mem := Array.mem_of_getElem? there
        cases r with
        | closure c =>
            refine .closure ⟨List.forall₂_same.mpr fun _ _ => rfl, .code ⟨rfl, ?_⟩, ⟨rfl, ?_⟩⟩ fun _ _ => rfl
            · exact here.procedures ▸ fun _ holds => here.grounded.body mem holds
            · exact here.frames ▸ here.grounded.env mem
        | primitive => exact .primitive
        | host name respond =>
            refine .host (fun args args' hargs => ?_) fun _ _ hf => hf
            obtain ⟨rfl, below⟩ := forall₂_below.mp hargs
            exact requestPair_below (here.hosts name respond mem _ (Nat.le_of_eq here.procedures) args below)
  primitive r args args' heaps hargs := by
    obtain ⟨rfl, here⟩ := heaps
    obtain ⟨rfl, _⟩ := forall₂_below.mp hargs
    cases answer : r.apply _ args with
    | ok v => exact .ok ⟨rfl, Value.below_of_scalar (Primitive.scalar_apply answer)⟩
    | error e => exact .error rfl
  shape heaps pair := by
    obtain ⟨rfl, -⟩ := heaps
    cases pair with
    | same shape found => exact ShapeError.report_congr shape (rel_imp found fun _ _ h => by rw [h.1])
    | body text => rw [text]; rfl
  notEvaluable heaps he := .bind_error (fun _ => rfl) (by rw [heaps.1, he.1]) _
  notApplicable heaps hv := .bind_error (fun _ => rfl) (by rw [heaps.1, hv.1]) _

end Correspondence

/-! ## Grounded heaps stay grounded -/

/-- **Grounded heaps stay grounded**: code that mentions only what is there leaves a heap in which everything
that is mentioned is there, however it ends, and its value mentions only what is there then. -/
theorem Heap.Grounded.perform {heap : Heap} (grounded : heap.Grounded) (hosts : heap.HostsGrounded)
    {code : Value} (below : code.Below heap.procedures.size) {env : FrameId} (lt : env < heap.frames.size)
    (levels : Nat) :
    let after := heapAfter (Call.perform levels (.eval code env)) heap
    (after.Grounded ∧ after.HostsGrounded) ∧ heap.frames.size ≤ after.frames.size ∧
      ∀ v, Call.perform levels (.eval code env) heap = .ok v after → v.Below after.procedures.size := by
  intro after
  have lawful := Correspondence.grounded_lawful
  have ends := Correspondence.perform lawful levels ⟨heap.frames.size, heap.procedures.size⟩ (.eval code env)
    (.eval code env) (.eval (.code ⟨rfl, below⟩) ⟨rfl, lt⟩) heap heap ⟨rfl, grounded, hosts, rfl, rfl⟩
  simp only [after, heapAfter]
  generalize Call.perform levels (.eval code env) heap = result at ends ⊢
  cases ends with
  | ok later heaps hv =>
      obtain ⟨-, here⟩ := heaps
      refine ⟨⟨here.grounded, here.hosts⟩, here.frames ▸ later.1, fun v eq => ?_⟩
      cases eq
      exact here.procedures ▸ hv.2
  | error later heaps _ =>
      obtain ⟨-, here⟩ := heaps
      refine ⟨⟨here.grounded, here.hosts⟩, here.frames ▸ later.1, fun v eq => ?_⟩
      cases eq
  | outOfDepth later heaps =>
      obtain ⟨-, here⟩ := heaps
      refine ⟨⟨here.grounded, here.hosts⟩, here.frames ▸ later.1, fun v eq => ?_⟩
      cases eq
  | early h => exact h.elim

end ScopedLisp
