import ScopedLisp.Proofs.Evaluation.Confinement
import ScopedLisp.Session

/-!
# ScopedLisp.Proofs.Evaluation.Locality

Evaluation in a frame changes that frame and no other one that was there before: whatever
the code defines, binds or calls, and however it ends, every other frame keeps its
parent, its names in their order and their values.  Applying a procedure changes no
frame that was there before at all, because a body runs in a frame of its own.

`Undisturbed before own` collects what stays; it is a `Confinement`, and the main
statement reads it off the run.
-/

namespace ScopedLisp

open Evaluation

/-! ## The frames of a heap -/

namespace Heap

/-- Only existing frames are in a chain. -/
theorem lt_size_of_mem_chainWithin {heap : Heap} {fuel : Nat} {start f : FrameId}
    (h : f ∈ heap.chainWithin fuel start) : f < heap.frames.size := by
  induction fuel generalizing start with
  | zero => simp [chainWithin] at h
  | succ fuel ih =>
      simp only [chainWithin] at h
      cases hs : heap.frames[start]? with
      | none => simp [hs] at h
      | some frame =>
          have exists_start : start < heap.frames.size := by
            obtain ⟨lt, _⟩ := Array.getElem?_eq_some_iff.mp hs
            exact lt
          obtain ⟨parent, slots⟩ := frame
          cases parent with
          | none =>
              simp only [hs, List.mem_singleton] at h
              rw [h]
              exact exists_start
          | some parent =>
              simp only [hs, List.mem_cons] at h
              rcases h with rfl | h
              · exact exists_start
              · exact ih h

/-- A new frame leaves those that exist as they are. -/
theorem getElem?_frames_newFrame {heap : Heap} {f : FrameId} (h : f < heap.frames.size)
    (parent : Option FrameId) (slots : List (String × Value)) :
    (heap.newFrame parent slots).2.frames[f]? = heap.frames[f]? := by
  simp only [newFrame]
  rw [Array.getElem?_push_lt h, Array.getElem?_eq_getElem h]

/-- Writing one frame leaves the others as they are. -/
theorem getElem?_frames_write {heap : Heap} {f g : FrameId} (h : g ≠ f) (name : String)
    (value : Value) : (heap.write f name value).frames[g]? = heap.frames[g]? := by
  simp only [write, Array.getElem?_modify]
  rw [if_neg (Ne.symm h)]

/-! ## Heaps without procedures of a host -/

theorem Hostless.newClosure {heap : Heap} (h : heap.Hostless) (c : Closure) :
    (heap.newProcedure (.closure c)).2.Hostless := by
  intro name respond mem
  simp only [newProcedure, Array.mem_push] at mem
  rcases mem with mem | mem
  · exact h name respond mem
  · cases mem

/-- Naming changes closures only: a procedure of a host was one before. -/
theorem host_of_nameClosure {heap : Heap} {id : ProcedureId} {name host : String}
    {respond : List Value → HostRequest} (mem : .host host respond ∈ (heap.nameClosure id name).procedures) :
    .host host respond ∈ heap.procedures := by
  obtain ⟨i, eq⟩ := Array.getElem?_of_mem mem
  simp only [Heap.nameClosure, Array.getElem?_modify] at eq
  by_cases hi : id = i
  · rw [if_pos hi] at eq
    obtain ⟨p, hp, eq⟩ := Option.map_eq_some_iff.mp eq
    cases p with
    | host => exact eq ▸ Array.mem_of_getElem? hp
    | _ => cases eq
  · rw [if_neg hi] at eq
    exact Array.mem_of_getElem? eq

theorem Hostless.nameClosure {heap : Heap} (h : heap.Hostless) (id : ProcedureId) (name : String) :
    (heap.nameClosure id name).Hostless :=
  fun host respond mem => h host respond (host_of_nameClosure mem)

end Heap

/-! ## What a run leaves undisturbed -/

/-- What a run that began with `before`, in the frame `own` if in any, has left as it was. -/
structure Undisturbed (before : Heap) (own : Option FrameId) (heap : Heap) : Prop where
  hostless : heap.Hostless
  size_le : before.frames.size ≤ heap.frames.size
  frame : ∀ f < before.frames.size, own ≠ some f → heap.frames[f]? = before.frames[f]?

/-- The existing frame that a call runs in, if it runs in one. -/
def Call.frame? : Call → Option FrameId
  | .eval _ env | .form _ _ env => some env
  | .apply _ _ _ => none
  | .nested call => call.frame?

theorem Call.runsIn_frame? {P : FrameId → Prop} :
    (call : Call) → call.RunsIn fun f => call.frame? = some f ∨ P f
  | .eval _ _ | .form _ _ _ => Or.inl rfl
  | .apply _ _ _ => trivial
  | .nested call => call.runsIn_frame?

/-- A heap is not disturbed by a run that has yet to begin. -/
theorem Undisturbed.refl {heap : Heap} (h : heap.Hostless) (own : Option FrameId) :
    Undisturbed heap own heap :=
  ⟨h, Nat.le_refl _, fun _ _ _ => rfl⟩

/-- A run may write its own frame and every frame made since it began. -/
theorem confinement_undisturbed (before : Heap) (own : Option FrameId) :
    Confinement (Undisturbed before own) fun f => own = some f ∨ before.frames.size ≤ f where
  hostless h := h.hostless
  newFrame parent slots h := by
    refine ⟨h.hostless, ?_, fun f lt other => ?_⟩
    · have := h.size_le
      simp only [Heap.newFrame, Array.size_push]
      omega
    · rw [Heap.getElem?_frames_newFrame (Nat.lt_of_lt_of_le lt h.size_le)]
      exact h.frame f lt other
  own_newFrame h := Or.inr h.size_le
  newClosure c h := ⟨h.hostless.newClosure c, h.size_le, h.frame⟩
  nameClosure id name h := ⟨h.hostless.nameClosure id name, h.size_le, h.frame⟩
  write name value owned h := by
    refine ⟨h.hostless, ?_, fun f lt other => ?_⟩
    · rw [Heap.size_frames_write]
      exact h.size_le
    · rw [Heap.getElem?_frames_write ?_]
      · exact h.frame f lt other
      · rintro rfl
        rcases owned with eq | le
        · exact other eq
        · omega

/-- **Undisturbed frames**: a call leaves every frame that was there before it as it was, except
the one it runs in. -/
theorem undisturbed_perform {heap : Heap} (h : heap.Hostless) (levels : Nat) (call : Call) :
    Undisturbed heap call.frame? (heapAfter (Call.perform levels call) heap) :=
  (confinement_undisturbed heap call.frame?).perform levels call.runsIn_frame? heap
    (Undisturbed.refl h call.frame?)

/-- The session that a step leaves, whether or not it fails. -/
def Step.sessionAfter {α : Type} (step : Step α) (session : Session) : Session :=
  match step session with
  | .ok _ after | .error _ after => after

theorem Step.heap_sessionAfter_evaluate (code : Value) (env : FrameId) (session : Session) :
    (sessionAfter (evaluate code env) session).heap =
      heapAfter (Call.perform session.depthLimit (.eval code env)) session.heap := by
  simp only [sessionAfter, evaluate, heapAfter]
  cases Call.perform session.depthLimit (.eval code env) session.heap with
  | ok value after => rfl
  | error failure after => cases failure <;> rfl

/-- **Frame locality**: evaluating code in `env` leaves every frame that was there before, other than
`env`, as it was, and so no binding of the frames around `env` changes.  Applying a procedure
leaves all of them as they were, `env` too.  It makes no difference how many levels are allowed
and how the evaluation ends. -/
theorem eval_local {heap : Heap} (hostless : heap.Hostless) (env : FrameId) (levels : Nat) :
    (∀ code, ∀ f < heap.frames.size, f ≠ env →
      (heapAfter (Call.perform levels (.eval code env)) heap).frames[f]? = heap.frames[f]?) ∧
    (∀ code, ∀ f ∈ heap.chain env, f ≠ env → ∀ name,
      (heapAfter (Call.perform levels (.eval code env)) heap).get? f name = heap.get? f name) ∧
    (∀ procedure args, ∀ f < heap.frames.size,
      (heapAfter (Call.perform levels (.apply procedure args env)) heap).frames[f]? =
        heap.frames[f]?) ∧
    ∀ session code, session.heap = heap → ∀ f < heap.frames.size, f ≠ env →
      (Step.sessionAfter (Step.evaluate code env) session).heap.frames[f]? = heap.frames[f]? := by
  have others : ∀ levels code, ∀ f < heap.frames.size, f ≠ env →
      (heapAfter (Call.perform levels (.eval code env)) heap).frames[f]? = heap.frames[f]? := by
    intro levels code f lt ne
    have undisturbed := undisturbed_perform hostless levels (.eval code env)
    exact undisturbed.frame f lt fun eq => ne (Option.some.inj eq).symm
  refine ⟨others levels, ?_, ?_, ?_⟩
  · intro code f mem ne name
    have lt := Heap.lt_size_of_mem_chainWithin mem
    simp only [Heap.get?]
    rw [others levels code f lt ne]
  · intro procedure args f lt
    have undisturbed := undisturbed_perform hostless levels (.apply procedure args env)
    exact undisturbed.frame f lt (by simp [Call.frame?])
  · rintro session code rfl f lt ne
    rw [Step.heap_sessionAfter_evaluate]
    exact others session.depthLimit code f lt ne

/-- In a frame inside the root, `(begin (define x 3) (f 4) (let ((x 5)) (define x 6)))`, where `f` is
a procedure of the root that defines `x`: only the frame's own `x` changes. -/
theorem eval_local_nested :
    let define (value : String) : Value := .list [.atom "define", .atom "x", .atom value]
    let heap : Heap := ⟨
      #[⟨none, [("x", .int 1), ("f", .procedure 0)]⟩, ⟨some 0, [("x", .int 2)]⟩],
      #[.closure ⟨["y"], define "y", 0, some "f"⟩]⟩
    let code : Value := .list [.atom "begin", define "3", .list [.atom "f", .atom "4"],
      .list [.atom "let", .list [.list [.atom "x", .atom "5"]], define "6"]]
    let after := heapAfter (Call.perform 20 (.eval code 1)) heap
    heap.Hostless ∧ after.frames[0]? = heap.frames[0]? ∧ after.get? 1 "x" = some (.int 3) := by
  intro define heap code after
  have hostless : heap.Hostless := by
    intro name respond mem
    simp [heap] at mem
  refine ⟨hostless, ?_, ?_⟩
  · exact (eval_local hostless 1 20).1 code 0 (by decide) (by decide)
  · rfl

end ScopedLisp
