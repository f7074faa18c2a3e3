import ScopedLisp.Proofs.Evaluation.Assignment
import ScopedLisp.Proofs.Evaluation.Grounding
import ScopedLisp.Proofs.Heap.Standard
import ScopedLisp.Proofs.Session.Growth

/-!
# ScopedLisp.Proofs.Session.Standard

Sessions that begin with a standard root frame and evaluate expressions only.  In their heaps the
code is made of expressions, and the values are those of the language: numbers, booleans, `nil`
and procedures.  This is a territory (`Territory.language`), closed in the heap that such a session
begins with, and so in every one that it comes to (`Interpreter.Reaches.kept_language`).
-/

namespace ScopedLisp

/-! ## The territory of the language -/

/-- A number, a boolean, `nil` or a procedure. -/
def Value.OfLanguage : Value → Prop
  | .procedure _ => True
  | v => v.Scalar

/-- Values of the language and code that is made of expressions, in any frame. -/
def Territory.language : Territory where
  frame _ := True
  value := Value.OfLanguage
  codes := .written (fun _ => True) trivial
  scalar {v} h := by
    cases v with
    | procedure id => trivial
    | _ => exact h
  proper h := by
    rintro rfl
    exact h

theorem Territory.closed_language : language.Closed Heap.standard where
  parent _ _ := trivial
  slot _ hget := by
    rcases Heap.slot_of_standard hget with rfl | ⟨id, rfl, _⟩
    · exact Or.inr rfl
    · exact Or.inr trivial
  closure _ hc := by
    obtain ⟨primitive, eq⟩ := Heap.primitive_of_standard hc
    cases eq
  newFrame _ := trivial
  newProcedure _ := trivial

/-- A value of a program that began with the standard heap: a number, a boolean, `nil`, a closure, or
one of the primitives that the standard heap began with. -/
inductive Heap.Native (heap : Heap) : Value → Prop where
  | number (n : Number) : Native heap (.number n)
  | bool (b : Bool) : Native heap (.bool b)
  | nil : Native heap .nil
  | closure {id : ProcedureId} {c : Closure} : heap.procedures[id]? = some (.closure c) →
      Native heap (.procedure id)
  | primitive {id : ProcedureId} {p : Primitive} :
      standard.procedures[id]? = some (.primitive p.name p) →
      heap.procedures[id]? = some (.primitive p.name p) → Native heap (.procedure id)

/-- Primitives have no name that a definition gave them. -/
theorem Procedure.eq_of_unnamed_primitive {p : Procedure} {name : String} {primitive : Primitive}
    (h : p.unnamed = (Procedure.primitive name primitive).unnamed) : p = .primitive name primitive := by
  cases p with
  | closure c => cases h
  | primitive name p => exact h
  | host name respond => exact h

/-- In a heap that has grown from the standard one, values of the language are native. -/
theorem Heap.native {heap : Heap} (growth : Heap.standard.Extends heap) {v : Value}
    (language : v.OfLanguage) (known : heap.Knows v) : heap.Native v := by
  cases v with
  | number n => exact .number n
  | bool b => exact .bool b
  | symbol name =>
      cases language
      exact .nil
  | procedure id =>
      have hp := Array.getElem?_eq_getElem (known id rfl)
      rcases Nat.lt_or_ge id Heap.standard.procedures.size with old | new
      · obtain ⟨p, hold, eq⟩ := growth.procedure old hp
        obtain ⟨primitive, rfl⟩ := primitive_of_standard hold
        exact .primitive hold (hp.trans (congrArg some (Procedure.eq_of_unnamed_primitive eq)))
      · obtain ⟨c, eq⟩ := growth.newProcedure new hp
        exact .closure (hp.trans (congrArg some eq))
  | _ => exact language.elim

/-- All that the standard heap mentions is in it. -/
theorem Heap.grounded_standard : standard.Grounded where
  parent h := by
    rw [parent?_standard] at h
    cases h
  slot there mem holds := by
    rcases value_of_standardSlots (slots_of_standard there ▸ mem) with eq | ⟨id, eq, lt⟩
    · rw [eq] at holds
      cases holds
    · rw [eq] at holds
      cases holds
      exact lt
  env there := by
    obtain ⟨id, h⟩ := Array.getElem?_of_mem there
    obtain ⟨primitive, eq⟩ := primitive_of_standard h
    cases eq
  body there := by
    obtain ⟨id, h⟩ := Array.getElem?_of_mem there
    obtain ⟨primitive, eq⟩ := primitive_of_standard h
    cases eq

/-! ## Standard sessions -/

namespace Interpreter

variable {interpreter : Interpreter} {start session after : Session}

/-- The interpreter has just been made, in a session with nothing else in it. -/
structure Begins (interpreter : Interpreter) (session : Session) : Prop where
  root : interpreter.root = 0
  heap : session.heap = .standard

/-- An interpreter made in an empty session begins a standard one, with as many nested calls allowed or
more. -/
theorem create_begins {settings : Settings} (empty : session.heap = .empty)
    (h : create settings session = .ok interpreter after) :
    interpreter.Begins after ∧ session.depthLimit ≤ after.depthLimit := by
  have raised := Step.quiet_raiseDepthLimit settings session
  unfold create at h
  cases hr : Step.raiseDepthLimit settings session with
  | error error mid => rw [bind_of_error hr] at h; cases h
  | ok _ mid =>
      rw [Step.sessionAfter_of_ok hr, empty] at raised
      rw [bind_of_ok hr] at h
      obtain ⟨heap, limit, threshold, log, objects⟩ := mid
      obtain ⟨rfl, le⟩ := raised
      cases h
      exact ⟨⟨rfl, rfl⟩, le⟩

theorem Begins.kept (begins : interpreter.Begins start) :
    Territory.language.Kept start.heap start.heap := by
  rw [begins.heap]
  exact Territory.kept_self Heap.sound_standard Territory.closed_language

theorem Begins.lt (begins : interpreter.Begins start) : interpreter.root < start.heap.frames.size := by
  rw [begins.root, begins.heap]
  exact Nat.zero_lt_one

/-- All that the heap of a session mentions is in it, however the session has begun. -/
theorem Reaches.grounded (reached : interpreter.Reaches start session) (grounded : start.heap.Grounded)
    (hosts : start.heap.HostsGrounded) (lt : interpreter.root < start.heap.frames.size) :
    (session.heap.Grounded ∧ session.heap.HostsGrounded) ∧
      interpreter.root < session.heap.frames.size := by
  induction reached with
  | start => exact ⟨⟨grounded, hosts⟩, lt⟩
  | @form session e _ ih =>
      obtain ⟨⟨grounded, hosts⟩, lt⟩ := ih
      rcases (heap_evalForm interpreter e.toValue session).2 with eq | eq
      · rw [eq]
        exact ⟨⟨grounded, hosts⟩, lt⟩
      · have below : e.toValue.Below session.heap.procedures.size :=
          fun id holds => absurd holds (e.written_toValue.not_holds id)
        obtain ⟨after, le, _⟩ := grounded.perform hosts below lt session.depthLimit
        rw [eq]
        exact ⟨after, Nat.lt_of_lt_of_le lt le⟩

/-- All that the heap of a standard session mentions is in it. -/
theorem Reaches.grounded_of_begins (reached : interpreter.Reaches start session)
    (begins : interpreter.Begins start) : session.heap.Grounded := by
  have hostless := begins.kept.sound.hostless
  have grounded : start.heap.Grounded := begins.heap ▸ Heap.grounded_standard
  exact (reached.grounded grounded (fun name respond mem => absurd mem (hostless name respond)) begins.lt).1.1

/-- The language is not left. -/
theorem Reaches.kept_language (reached : interpreter.Reaches start session)
    (begins : interpreter.Begins start) : Territory.language.Kept start.heap session.heap :=
  reached.kept begins.kept trivial begins.lt Expr.written_toValue

/-- What leads on from existing addresses of a standard session is all there. -/
theorem Reaches.complete (reached : interpreter.Reaches start session)
    (begins : interpreter.Begins start) {seeds : Address → Prop}
    (exist : ∀ a, seeds a → session.heap.Has a) : session.heap.Complete seeds := by
  have kept := reached.kept_language begins
  refine .of_links kept.sound.hostless kept.sound.parent_lt ?_ kept.sound.env_lt ?_ exist
  · intro f name v id hget holds
    -- what a slot holds is unassigned, of no parts, or a procedure
    have known : v = .procedure id := by
      rcases kept.closed.slot trivial hget with rfl | language
      · cases holds
      · cases holds with
        | procedure => rfl
        | list _ _ | array _ _ => exact language.elim
    exact kept.sound.procedure_lt (known ▸ hget)
  · intro id id' c hc holds
    exact absurd holds ((kept.closed.closure trivial hc).2.not_holds id')

/-- Evaluation of an expression in a standard session is permitted in the language. -/
theorem Reaches.permits_language (reached : interpreter.Reaches start session)
    (begins : interpreter.Begins start) (e : Expr) {env : FrameId}
    (lt : env < session.heap.frames.size) :
    Territory.language.Permits ⟨session.depthLimit, .eval e.toValue env, session.heap⟩ := by
  have kept := reached.kept_language begins
  exact ⟨Territory.kept_self kept.sound kept.closed, Expr.written_toValue e, trivial, lt⟩

/-- The root frame leads to assigned slots only. -/
theorem Reaches.tidy (reached : interpreter.Reaches start session)
    (begins : interpreter.Begins start) : Tidy interpreter.root session.heap := by
  induction reached with
  | start =>
      refine ⟨begins.kept.sound, begins.lt, ?_⟩
      rw [begins.root, begins.heap]
      exact Heap.assigned_standard
  | @form session e _ ih =>
      rcases (heap_evalForm interpreter e.toValue session).2 with eq | eq
      · rw [eq]
        exact ih
      · rw [eq]
        exact tidy_perform session.depthLimit rfl session.heap ih

end Interpreter

end ScopedLisp
