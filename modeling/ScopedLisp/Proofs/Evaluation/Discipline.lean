import ScopedLisp.Evaluation.Call
import ScopedLisp.Proofs.Form.Parts
import ScopedLisp.Proofs.Primitive.Answers

/-!
# ScopedLisp.Proofs.Evaluation.Discipline

What evaluation keeps if the values that it handles are taken into account.  A `Discipline`
says which heaps are sound, which frames code may run in, which values and which code it may
handle, and how heaps may follow each other: `later` where a computation ends with a value,
`failed` where it does not.  Its laws speak of one look-up or one change of the heap each.

The main statement, `Discipline.perform`, says that every call follows a discipline, however
it ends: one lemma for each special form and one for application, and an induction over the
nesting levels.  It differs from a `Confinement` in that values are followed: what is
written, returned or applied is always a value that the discipline allows.
-/

namespace ScopedLisp

open Evaluation

/-- Rules that evaluation follows. -/
structure Discipline where
  sound : Heap → Prop
  /-- The heaps that a computation may leave when it ends with a value. -/
  later : Heap → Heap → Prop
  /-- The heaps that it may leave when it fails. -/
  failed : Heap → Heap → Prop
  /-- The frames that code may run in. -/
  frame : Heap → FrameId → Prop
  /-- The values that code may handle. -/
  value : Heap → Value → Prop
  codes : CodeSet
  later_refl {heap : Heap} : sound heap → later heap heap
  later_trans {before mid after : Heap} : later before mid → later mid after → later before after
  failed_refl {heap : Heap} : sound heap → failed heap heap
  later_failed {before mid after : Heap} :
    later before mid → failed mid after → failed before after
  frame_later {before after : Heap} {f : FrameId} :
    later before after → frame before f → frame after f
  value_later {before after : Heap} {v : Value} :
    later before after → value before v → value after v
  frame_lt {heap : Heap} {f : FrameId} : frame heap f → f < heap.frames.size
  /-- A slot that is assigned stays so. -/
  assigned_later {before after : Heap} {f : FrameId} {name : String} : later before after →
    frame before f → before.get? f name ≠ some .unassigned → after.get? f name ≠ some .unassigned
  scalar {heap : Heap} {v : Value} : v.Scalar → value heap v
  proper {heap : Heap} {v : Value} : value heap v → v ≠ .unassigned
  lookup {heap : Heap} {f : FrameId} {name : String} {v : Value} :
    sound heap → frame heap f → heap.lookup f name = .ok v → value heap v
  closure {heap : Heap} {v : Value} {c : Closure} : sound heap → value heap v →
    heap.procedure? v = some (.closure c) → frame heap c.env ∧ codes.mem c.body
  hostless {heap : Heap} {v : Value} {name : String} {respond : List Value → HostRequest} :
    sound heap → value heap v → heap.procedure? v ≠ some (.host name respond)
  newFrame {heap : Heap} {parent : FrameId} {slots : List (String × Value)} : sound heap →
    frame heap parent → (∀ slot ∈ slots, value heap slot.2) →
      sound (heap.newFrame (some parent) slots).2 ∧
      later heap (heap.newFrame (some parent) slots).2 ∧
      frame (heap.newFrame (some parent) slots).2 heap.frames.size
  newClosure {heap : Heap} {c : Closure} : sound heap → frame heap c.env → codes.mem c.body →
    sound (heap.newProcedure (.closure c)).2 ∧
    later heap (heap.newProcedure (.closure c)).2 ∧
    value (heap.newProcedure (.closure c)).2 (.procedure heap.procedures.size)
  nameClosure {heap : Heap} (id : ProcedureId) (name : String) : sound heap →
    sound (heap.nameClosure id name) ∧ later heap (heap.nameClosure id name)
  write {heap : Heap} {f : FrameId} {v : Value} (name : String) : sound heap → frame heap f →
    value heap v → sound (heap.write f name v) ∧ later heap (heap.write f name v)
  /-- A frame whose names wait for their values.  What comes later than it comes later than the heap
  before, once all of them are assigned. -/
  declare {heap : Heap} {parent : FrameId} {slots : List (String × Value)} : sound heap →
    frame heap parent → (∀ slot ∈ slots, slot.2 = .unassigned) →
      sound (heap.newFrame (some parent) slots).2 ∧
      frame (heap.newFrame (some parent) slots).2 heap.frames.size ∧
      (∀ last, later (heap.newFrame (some parent) slots).2 last →
        (∀ slot ∈ slots, last.get? heap.frames.size slot.1 ≠ some .unassigned) →
          later heap last) ∧
      ∀ last, failed (heap.newFrame (some parent) slots).2 last → failed heap last

namespace Discipline

variable (d : Discipline)

/-! ## Computations that follow a discipline -/

/-- How a computation that began with `heap` may end: `post` says more of its value. -/
def Ends {α : Type} (heap : Heap) (post : α → Heap → Prop) :
    EStateM.Result Failure Heap α → Prop
  | .ok a after => d.sound after ∧ d.later heap after ∧ post a after
  | .error _ after => d.failed heap after

/-- From a heap, if it is sound, a computation ends as the discipline wants. -/
def Obeys {α : Type} (heap : Heap) (x : Evaluation α) (post : α → Heap → Prop) : Prop :=
  d.sound heap → d.Ends heap post (x heap)

variable {d} {α β : Type} {heap : Heap}

theorem Ends.mono {post post' : α → Heap → Prop} {result : EStateM.Result Failure Heap α}
    (h : d.Ends heap post result) (imp : ∀ a after, post a after → post' a after) :
    d.Ends heap post' result := by
  cases result with
  | ok a after => exact ⟨h.1, h.2.1, imp a after h.2.2⟩
  | error failure after => exact h

theorem Obeys.mono {post post' : α → Heap → Prop} {x : Evaluation α} (hx : d.Obeys heap x post)
    (imp : ∀ a after, post a after → post' a after) : d.Obeys heap x post' :=
  fun sound => (hx sound).mono imp

/-- What a computation leaves is also later than what it began with. -/
theorem Obeys.and_later {post : α → Heap → Prop} {x : Evaluation α} (hx : d.Obeys heap x post) :
    d.Obeys heap x fun a after => d.later heap after ∧ post a after := by
  intro sound
  have ends := hx sound
  cases hr : x heap with
  | ok a after =>
      rw [hr] at ends
      exact ⟨ends.1, ends.2.1, ends.2.1, ends.2.2⟩
  | error failure after =>
      rw [hr] at ends
      exact ends

theorem Obeys.pure {post : α → Heap → Prop} {a : α} (h : post a heap) :
    d.Obeys heap (Pure.pure a) post :=
  fun sound => ⟨sound, d.later_refl sound, h⟩

/-- Computations in a row: what the first one leaves is sound and later, and the second begins there. -/
theorem Obeys.bind {mid : α → Heap → Prop} {post : β → Heap → Prop} {x : Evaluation α}
    {next : α → Evaluation β} (hx : d.Obeys heap x mid)
    (hnext : ∀ a after, d.later heap after → mid a after → d.Obeys after (next a) post) :
    d.Obeys heap (x >>= next) post := by
  intro sound
  have hmid := hx sound
  simp only [Bind.bind, EStateM.bind]
  cases hr : x heap with
  | error failure after =>
      rw [hr] at hmid
      exact hmid
  | ok a after =>
      rw [hr] at hmid
      obtain ⟨sound', later, ha⟩ := hmid
      have hend := hnext a after later ha sound'
      show d.Ends heap post (next a after)
      cases hn : next a after with
      | ok b last =>
          rw [hn] at hend
          exact ⟨hend.1, d.later_trans later hend.2.1, hend.2.2⟩
      | error failure last =>
          rw [hn] at hend
          exact d.later_failed later hend

/-- To fail breaks no discipline. -/
theorem obeys_fail {post : α → Heap → Prop} (error : EvalError) :
    d.Obeys heap (fail error : Evaluation α) post :=
  fun sound => d.failed_refl sound

theorem obeys_outOfDepth {post : α → Heap → Prop} :
    d.Obeys heap (outOfDepth : Evaluation α) post :=
  fun sound => d.failed_refl sound

/-- To look at the heap breaks no discipline. -/
theorem obeys_view {post : α → Heap → Prop} {f : Heap → α} (h : d.sound heap → post (f heap) heap) :
    d.Obeys heap (view f) post :=
  fun sound => ⟨sound, d.later_refl sound, h sound⟩

/-- To look for something that may be missing breaks no discipline. -/
theorem obeys_query {post : α → Heap → Prop} {f : Heap → Except EvalError α}
    (h : d.sound heap → ∀ a, f heap = .ok a → post a heap) : d.Obeys heap (query f) post := by
  intro sound
  simp only [query]
  cases hf : f heap with
  | ok a => exact ⟨sound, d.later_refl sound, h sound a hf⟩
  | error error => exact d.failed_refl sound

theorem obeys_failShowing {post : α → Heap → Prop} (text : Heap → Except EvalError String)
    (error : String → EvalError) : d.Obeys heap (failShowing text error : Evaluation α) post := by
  refine obeys_query fun _ a h => ?_
  cases ht : text heap <;> rw [ht] at h <;> cases h

/-- The parts of a checked shape are as the check says. -/
theorem obeys_shaped {wanted : α → Prop} {parts : Shape.Checked α}
    (h : Shape.Within d.codes wanted parts) (remaining : Nat) :
    d.Obeys heap (shaped remaining parts) fun a _ => parts = .ok a ∧ wanted a := by
  cases parts with
  | ok a => exact Obeys.pure ⟨rfl, h⟩
  | error error =>
      simp only [shaped]
      split
      · exact obeys_outOfDepth
      · exact obeys_query fun _ a h => by cases h

/-! ## Calls -/

variable (d) in
/-- The calls that may be made in a heap. -/
def Admits (heap : Heap) : Call → Prop
  | .eval code env => d.codes.mem code ∧ d.frame heap env
  | .form _ operands env => (∀ e ∈ operands, d.codes.mem e) ∧ d.frame heap env
  | .apply procedure args env =>
    d.value heap procedure ∧ (∀ arg ∈ args, d.value heap arg) ∧ d.frame heap env
  | .nested call => Admits heap call

variable (d) in
/-- Calls that may be made are answered as the discipline wants, with values that it allows. -/
def Follows (call : Caller) : Prop :=
  ∀ heap c, d.Admits heap c → d.Obeys heap (call c) fun v after => d.value after v

variable {call : Caller} {env : FrameId}

/-- A caller that follows the discipline evaluates code to a value that it allows. -/
theorem Follows.eval (calls : d.Follows call) (henv : d.frame heap env) {e : Value}
    (code : d.codes.mem e) : d.Obeys heap (call (.eval e env)) fun v after => d.value after v :=
  calls heap (.eval e env) ⟨code, henv⟩

/-- Values evaluated one after the other are allowed at the end. -/
theorem Follows.evalEach (calls : d.Follows call) (henv : d.frame heap env) {es : List Value}
    (code : ∀ e ∈ es, d.codes.mem e) :
    d.Obeys heap (evalEach (fun e => call (.nested (.eval e env))) es) fun vs after =>
      vs.length = es.length ∧ ∀ v ∈ vs, d.value after v := by
  induction es generalizing heap with
  | nil => exact Obeys.pure ⟨rfl, by simp⟩
  | cons e es ih =>
      obtain ⟨code_e, code_es⟩ := List.forall_mem_cons.mp code
      refine (calls heap (.nested (.eval e env)) ⟨code_e, henv⟩).bind fun v mid later hv => ?_
      refine (ih (d.frame_later later henv) code_es).bind fun vs after later' ⟨hlength, hvs⟩ => ?_
      exact Obeys.pure ⟨congrArg (· + 1) hlength,
        List.forall_mem_cons.mpr ⟨d.value_later later' hv, hvs⟩⟩

/-- A caller that follows the discipline evaluates a row of code to a last value that it allows. -/
theorem Follows.evalLast (calls : d.Follows call) (henv : d.frame heap env) {es : List Value}
    (code : ∀ e ∈ es, d.codes.mem e) :
    d.Obeys heap (evalLast (fun e => call (.eval e env)) es) fun v after => d.value after v := by
  induction es generalizing heap with
  | nil => exact Obeys.pure (d.scalar rfl)
  | cons e es ih =>
      obtain ⟨code_e, code_es⟩ := List.forall_mem_cons.mp code
      cases es with
      | nil => exact calls.eval henv code_e
      | cons e' es =>
          refine (calls.eval henv code_e).bind fun v mid later _ => ?_
          exact ih (d.frame_later later henv) code_es

/-! ### Changes of the heap -/

/-- A closure of code and of a frame that the discipline allows is a value that it allows. -/
theorem obeys_newClosure {c : Closure} (henv : d.frame heap c.env) (code : d.codes.mem c.body) :
    d.Obeys heap (Evaluation.newClosure c) fun v after => d.value after v :=
  fun sound => d.newClosure sound henv code

/-- A write of an allowed value to an allowed frame follows the discipline. -/
theorem obeys_write {f : FrameId} {v : Value} (hf : d.frame heap f) (hv : d.value heap v)
    (name : String) : d.Obeys heap (Evaluation.write f name v) fun _ after =>
      after = heap.write f name v :=
  fun sound => ⟨(d.write name sound hf hv).1, (d.write name sound hf hv).2, rfl⟩

/-- To name a value follows the discipline. -/
theorem obeys_nameClosure (v : Value) (name : String) :
    d.Obeys heap (Evaluation.nameClosure v name) fun _ _ => True := by
  intro sound
  cases v with
  | procedure id => exact ⟨(d.nameClosure id name sound).1, (d.nameClosure id name sound).2, trivial⟩
  | _ => exact ⟨sound, d.later_refl sound, trivial⟩

/-- A new frame inside an allowed one, with allowed values, is allowed. -/
theorem obeys_newFrame {parent : FrameId} {slots : List (String × Value)}
    (hparent : d.frame heap parent) (values : ∀ slot ∈ slots, d.value heap slot.2) :
    d.Obeys heap (Evaluation.newFrame parent slots) fun f after => d.frame after f :=
  fun sound => d.newFrame sound hparent values

/-- A frame whose names wait for their values: what follows has to assign all of them. -/
theorem obeys_declare {parent : FrameId} {slots : List (String × Value)} {post : α → Heap → Prop}
    {next : FrameId → Evaluation α} (hparent : d.frame heap parent)
    (waiting : ∀ slot ∈ slots, slot.2 = .unassigned)
    (hnext : ∀ f after, d.frame after f → d.Obeys after (next f) fun a last =>
      post a last ∧ ∀ slot ∈ slots, last.get? f slot.1 ≠ some .unassigned) :
    d.Obeys heap (Evaluation.newFrame parent slots >>= next) post := by
  intro sound
  obtain ⟨sound', hframe, later_of, failed_of⟩ := d.declare sound hparent waiting
  have ends := hnext heap.frames.size _ hframe sound'
  show d.Ends heap post (next heap.frames.size (heap.newFrame (some parent) slots).2)
  cases hr : next heap.frames.size (heap.newFrame (some parent) slots).2 with
  | ok a last =>
      rw [hr] at ends
      obtain ⟨sound'', later, ha, assigned⟩ := ends
      exact ⟨sound'', later_of last later assigned, ha⟩
  | error failure last =>
      rw [hr] at ends
      exact failed_of last ends

/-- A written slot is assigned. -/
theorem assigned_write {f : FrameId} {v : Value} (hf : d.frame heap f) (hv : d.value heap v)
    (name : String) : (heap.write f name v).get? f name ≠ some .unassigned := by
  rw [Heap.get?_write, if_pos ⟨rfl, d.frame_lt hf, rfl⟩]
  exact fun h => d.proper hv (Option.some.inj h)

/-! ### Special forms -/

/-- An `if` follows the discipline. -/
theorem obeys_runIf (calls : d.Follows call) (henv : d.frame heap env) (remaining : Nat)
    {operands : List Value} (code : ∀ e ∈ operands, d.codes.mem e) :
    d.Obeys heap (Form.runIf remaining call operands env) fun v after => d.value after v := by
  refine (obeys_shaped (Shape.within_conditional code) remaining).bind
    fun ⟨test, positive, negative⟩ mid later ⟨_, code_test, code_positive, code_negative⟩ => ?_
  have henv := d.frame_later later henv
  refine (calls.eval henv code_test).bind fun v after later' _ => ?_
  have henv := d.frame_later later' henv
  split
  · exact calls.eval henv code_positive
  · cases negative with
    | some e => exact calls.eval henv (code_negative e rfl)
    | none => exact Obeys.pure (d.scalar rfl)

/-- A definition that succeeds leaves an allowed value under its name. -/
theorem obeys_runDefine (calls : d.Follows call) (henv : d.frame heap env) (remaining : Nat)
    {operands : List Value} (code : ∀ e ∈ operands, d.codes.mem e) :
    d.Obeys heap (Form.runDefine remaining call operands env) fun v after => d.value after v ∧
      ∃ definition given, Shape.definition operands = .ok definition ∧
        after.get? env definition.name = some given ∧ d.value after given := by
  have finish : ∀ {mid : Heap} (name : String) {v : Value}, d.frame mid env → d.value mid v →
      d.Obeys mid (Evaluation.write env name v >>= fun _ => Pure.pure Value.nil) fun result after =>
        d.value after result ∧ ∃ given, after.get? env name = some given ∧ d.value after given := by
    intro mid name v henv hv
    refine (obeys_write henv hv name).bind fun _ after later eq => Obeys.pure ⟨d.scalar rfl, v, ?_, ?_⟩
    · rw [eq, Heap.get?_write, if_pos ⟨rfl, d.frame_lt henv, rfl⟩]
    · exact d.value_later later hv
  refine (obeys_shaped (Shape.within_definition code) remaining).bind
    fun definition mid later ⟨shape, code⟩ => ?_
  have henv := d.frame_later later henv
  suffices h : d.Obeys mid _ fun result after => d.value after result ∧
      ∃ given, after.get? env definition.name = some given ∧ d.value after given from
    h.mono fun _ _ ⟨hresult, given, hget, hgiven⟩ => ⟨hresult, definition, given, shape, hget, hgiven⟩
  cases definition with
  | procedure name formals body =>
      refine (obeys_newClosure henv code).bind fun closure after later' hclosure => ?_
      exact finish name (d.frame_later later' henv) hclosure
  | value name expr =>
      refine (calls.eval henv code).bind fun v after later' hv => ?_
      have henv := d.frame_later later' henv
      split
      · refine (obeys_nameClosure v name).bind fun _ named later'' _ => ?_
        exact finish name (d.frame_later later'' henv) (d.value_later later'' hv)
      · exact finish name henv hv

/-- A `lambda` follows the discipline. -/
theorem obeys_runLambda (henv : d.frame heap env) (remaining : Nat) {operands : List Value}
    (code : ∀ e ∈ operands, d.codes.mem e) :
    d.Obeys heap (Form.runLambda remaining operands env) fun v after => d.value after v := by
  refine (obeys_shaped (Shape.within_lambda code) remaining).bind
    fun ⟨formals, body⟩ mid later ⟨_, code⟩ => ?_
  exact obeys_newClosure (d.frame_later later henv) code

/-- A `begin` follows the discipline. -/
theorem obeys_runBegin (calls : d.Follows call) (henv : d.frame heap env) {operands : List Value}
    (code : ∀ e ∈ operands, d.codes.mem e) :
    d.Obeys heap (Form.runBegin call operands env) fun v after => d.value after v := by
  unfold Form.runBegin
  split
  · exact obeys_fail _
  · exact calls.evalLast henv code

/-- An `and` follows the discipline: its values are those of its operands, or booleans. -/
theorem obeys_runAnd (calls : d.Follows call) (henv : d.frame heap env) {es : List Value}
    (code : ∀ e ∈ es, d.codes.mem e) :
    d.Obeys heap (Form.runAnd call env es) fun v after => d.value after v := by
  induction es generalizing heap with
  | nil => exact Obeys.pure (d.scalar trivial)
  | cons e es ih =>
      obtain ⟨code_e, code_es⟩ := List.forall_mem_cons.mp code
      cases es with
      | nil => exact calls.eval henv code_e
      | cons e' es =>
          refine (calls.eval henv code_e).bind fun v after later _ => ?_
          split
          · exact ih (d.frame_later later henv) code_es
          · exact Obeys.pure (d.scalar trivial)

/-- An `or` follows the discipline: its values are those of its operands, or booleans. -/
theorem obeys_runOr (calls : d.Follows call) (henv : d.frame heap env) {es : List Value}
    (code : ∀ e ∈ es, d.codes.mem e) :
    d.Obeys heap (Form.runOr call env es) fun v after => d.value after v := by
  induction es generalizing heap with
  | nil => exact Obeys.pure (d.scalar trivial)
  | cons e es ih =>
      obtain ⟨code_e, code_es⟩ := List.forall_mem_cons.mp code
      refine (calls.eval henv code_e).bind fun v after later hv => ?_
      split
      · exact Obeys.pure hv
      · exact ih (d.frame_later later henv) code_es

/-- A `cond` follows the discipline, clause by clause. -/
theorem obeys_runCond (calls : d.Follows call) (henv : d.frame heap env) (remaining : Nat)
    {clauses : List Value} (code : ∀ clause ∈ clauses, d.codes.mem clause) :
    d.Obeys heap (Form.runCond remaining call env clauses) fun v after => d.value after v := by
  induction clauses generalizing heap with
  | nil => exact Obeys.pure (d.scalar rfl)
  | cons clause rest ih =>
      obtain ⟨code_clause, code_rest⟩ := List.forall_mem_cons.mp code
      unfold Form.runCond
      split
      · exact Obeys.pure (d.scalar rfl)
      next test body rest eq =>
        cases eq
        obtain ⟨code_test, code_body⟩ := List.forall_mem_cons.mp (d.codes.list.mp code_clause)
        split
        · split
          · exact obeys_fail _
          split
          · exact obeys_fail _
          · exact calls.evalLast henv code_body
        · refine (calls.eval henv code_test).bind fun v after later hv => ?_
          have henv := d.frame_later later henv
          split
          · exact ih henv code_rest
          split
          · exact Obeys.pure hv
          · exact calls.evalLast henv code_body
      next eq =>
        cases eq
        have refused : Shape.Within d.codes (fun _ : Value => False) (.error (.condClause clause)) :=
          Shape.errorWithin_found rfl code_clause
        exact (obeys_shaped refused remaining).mono fun _ _ h => h.2.elim

/-! ### Forms with a frame of their own -/

/-- A `let` follows the discipline: only allowed values come into its frame. -/
theorem obeys_runLet (calls : d.Follows call) (henv : d.frame heap env) (remaining : Nat)
    {operands : List Value} (code : ∀ e ∈ operands, d.codes.mem e) :
    d.Obeys heap (Form.runLet remaining call operands env) fun v after => d.value after v := by
  refine (obeys_shaped (Shape.within_letParts "let" false code) remaining).bind
    fun ⟨bindings, body⟩ mid later ⟨_, code_bindings, code_body⟩ => ?_
  have henv := d.frame_later later henv
  have code_exprs : ∀ e ∈ bindings.map (·.2), d.codes.mem e := by
    rw [List.forall_mem_map]
    exact code_bindings
  refine (calls.evalEach henv code_exprs).bind fun values after later' ⟨_, hvalues⟩ => ?_
  have slots : ∀ slot ∈ (bindings.map (·.1)).zip values, d.value after slot.2 :=
    fun slot mem => hvalues slot.2 (List.of_mem_zip mem).2
  refine (obeys_newFrame (d.frame_later later' henv) slots).bind fun frame inner _ hframe => ?_
  exact calls.eval hframe code_body

/-- To bind in order follows the discipline, value by value. -/
theorem obeys_bindInOrder (calls : d.Follows call) {frame : FrameId} (hframe : d.frame heap frame)
    {bindings : List (String × Value)} (code : ∀ binding ∈ bindings, d.codes.mem binding.2) :
    d.Obeys heap (Form.bindInOrder call frame bindings) fun _ _ => True := by
  induction bindings generalizing heap with
  | nil => exact Obeys.pure trivial
  | cons binding rest ih =>
      obtain ⟨code_expr, code_rest⟩ := List.forall_mem_cons.mp code
      refine (calls.eval hframe code_expr).bind fun v after later hv => ?_
      have hframe := d.frame_later later hframe
      refine (obeys_write hframe hv binding.1).bind fun _ written later' _ => ?_
      exact ih (d.frame_later later' hframe) code_rest

/-- A `let*` follows the discipline. -/
theorem obeys_runLetStar (calls : d.Follows call) (henv : d.frame heap env) (remaining : Nat)
    {operands : List Value} (code : ∀ e ∈ operands, d.codes.mem e) :
    d.Obeys heap (Form.runLetStar remaining call operands env) fun v after => d.value after v := by
  refine (obeys_shaped (Shape.within_letParts "let*" true code) remaining).bind
    fun ⟨bindings, body⟩ mid later ⟨_, code_bindings, code_body⟩ => ?_
  refine (obeys_newFrame (d.frame_later later henv) (List.forall_mem_nil _)).bind
    fun frame inner _ hframe => ?_
  refine (obeys_bindInOrder calls hframe code_bindings).bind fun _ after later' _ => ?_
  exact calls.eval (d.frame_later later' hframe) code_body

/-- At the end every name is assigned. -/
theorem obeys_assignInOrder (calls : d.Follows call) {frame : FrameId}
    (hframe : d.frame heap frame) {bindings : List (String × Value)}
    (code : ∀ binding ∈ bindings, d.codes.mem binding.2) :
    d.Obeys heap (Form.assignInOrder call frame bindings) fun _ last =>
      ∀ binding ∈ bindings, last.get? frame binding.1 ≠ some .unassigned := by
  induction bindings generalizing heap with
  | nil => exact Obeys.pure (by simp)
  | cons binding rest ih =>
      obtain ⟨name, expr⟩ := binding
      obtain ⟨code_expr, code_rest⟩ := List.forall_mem_cons.mp code
      have finish : ∀ {mid : Heap} {v : Value}, d.frame mid frame → d.value mid v →
          d.Obeys mid (do
            Evaluation.write frame name v
            Form.assignInOrder call frame rest) fun _ last =>
              ∀ binding ∈ (name, expr) :: rest, last.get? frame binding.1 ≠ some .unassigned := by
        intro mid v hframe hv
        refine (obeys_write hframe hv name).bind fun _ written later eq => ?_
        have assigned : written.get? frame name ≠ some .unassigned :=
          eq ▸ assigned_write hframe hv name
        have hframe := d.frame_later later hframe
        refine (ih hframe code_rest).and_later.mono fun _ last ⟨later', hrest⟩ => ?_
        exact List.forall_mem_cons.mpr ⟨d.assigned_later later' hframe assigned, hrest⟩
      refine (calls.eval hframe code_expr).bind fun v after later hv => ?_
      have hframe := d.frame_later later hframe
      have looked : d.Obeys after (view (Form.isFresh · frame v)) fun _ _ => True :=
        obeys_view fun _ => trivial
      refine looked.bind fun fresh seen later' _ => ?_
      have hframe := d.frame_later later' hframe
      have hv := d.value_later later' hv
      split
      · refine (obeys_nameClosure v name).bind fun _ named later'' _ => ?_
        exact finish (d.frame_later later'' hframe) (d.value_later later'' hv)
      · exact finish hframe hv

/-- A `letrec` follows the discipline: its names are all assigned before its body is evaluated. -/
theorem obeys_runLetrec (calls : d.Follows call) (henv : d.frame heap env) (remaining : Nat)
    {operands : List Value} (code : ∀ e ∈ operands, d.codes.mem e) :
    d.Obeys heap (Form.runLetrec remaining call operands env) fun v after => d.value after v := by
  refine (obeys_shaped (Shape.within_letParts "letrec" false code) remaining).bind
    fun ⟨bindings, body⟩ mid later ⟨_, code_bindings, code_body⟩ => ?_
  refine obeys_declare (d.frame_later later henv) (by simp +contextual) fun frame inner hframe => ?_
  refine (obeys_assignInOrder calls hframe code_bindings).bind fun _ after later' assigned => ?_
  have hframe := d.frame_later later' hframe
  refine (calls.eval hframe code_body).and_later.mono fun v last ⟨later'', hv⟩ => ⟨hv, ?_⟩
  rw [List.forall_mem_map]
  exact fun binding mem => d.assigned_later later'' hframe (assigned binding mem)

/-! ### Evaluation and application -/

/-- A list follows the discipline, whether it is a form or an application. -/
theorem obeys_evalItems (calls : d.Follows call) (henv : d.frame heap env) {items : List Value}
    (code : ∀ e ∈ items, d.codes.mem e) :
    d.Obeys heap (Call.evalItems call items env) fun v after => d.value after v := by
  cases items with
  | nil => exact obeys_fail _
  | cons head operands =>
      obtain ⟨code_head, code_operands⟩ := List.forall_mem_cons.mp code
      simp only [Call.evalItems]
      cases Keyword.ofHead? head with
      | some keyword => exact calls heap (.form keyword operands env) ⟨code_operands, henv⟩
      | none =>
          refine (calls.eval henv code_head).bind fun procedure mid later hprocedure => ?_
          have henv := d.frame_later later henv
          refine (calls.evalEach henv code_operands).bind fun args after later' hargs => ?_
          exact calls after (.apply procedure args env)
            ⟨d.value_later later' hprocedure, hargs.2, d.frame_later later' henv⟩

/-- Allowed code follows the discipline. -/
theorem obeys_evalCode (calls : d.Follows call) (henv : d.frame heap env) {code : Value}
    (hcode : d.codes.mem code) :
    d.Obeys heap (Call.evalCode call code env) fun v after => d.value after v := by
  cases code with
  | atom text =>
      simp only [Call.evalCode, Call.evalAtom]
      cases Literal.ofText text with
      | boolean b => exact Obeys.pure (d.scalar trivial)
      | integer i => exact Obeys.pure (d.scalar trivial)
      | float x => exact Obeys.pure (d.scalar trivial)
      | oversized digits => exact obeys_fail _
      | name => exact obeys_query fun sound v h => d.lookup sound henv h
  | list items => exact obeys_evalItems calls henv (d.codes.list.mp hcode)
  | array items => exact obeys_evalItems calls henv (d.codes.array hcode)
  | _ => exact obeys_failShowing _ _

/-- To apply an allowed closure to allowed values follows the discipline. -/
theorem obeys_enter (calls : d.Follows call) {c : Closure} (henv : d.frame heap c.env)
    (code : d.codes.mem c.body) {args : List Value} (hargs : ∀ arg ∈ args, d.value heap arg) :
    d.Obeys heap (Call.enter call c args) fun v after => d.value after v := by
  unfold Call.enter
  split
  · have slots : ∀ slot ∈ Frame.setAll (c.formals.zip args) [], d.value heap slot.2 := by
      intro slot mem
      rcases Frame.mem_setAll mem with entry | none
      · exact hargs slot.2 (List.of_mem_zip entry).2
      · cases none
    refine (obeys_newFrame henv slots).bind fun frame inner _ hframe => ?_
    exact calls inner (.nested (.eval c.body frame)) ⟨code, hframe⟩
  · exact obeys_fail _

/-- Application of allowed values follows the discipline. -/
theorem obeys_applyProcedure (calls : d.Follows call) {procedure : Value} {args : List Value}
    (hprocedure : d.value heap procedure) (hargs : ∀ arg ∈ args, d.value heap arg) :
    d.Obeys heap (Call.applyProcedure call procedure args env) fun v after => d.value after v := by
  intro sound
  simp only [Call.applyProcedure, bind, EStateM.bind, view]
  cases hp : heap.procedure? procedure with
  | none => exact obeys_failShowing _ _ sound
  | some found =>
      cases found with
      | closure c =>
          obtain ⟨henv, code⟩ := d.closure sound hprocedure hp
          exact obeys_enter calls henv code hargs sound
      | primitive name primitive =>
          exact obeys_query (fun _ v h => d.scalar (Primitive.scalar_apply h)) sound
      | host name respond => exact absurd hp (d.hostless sound hprocedure)

/-! ### Steps and runs -/

/-- Every special form follows the discipline. -/
theorem obeys_form (calls : d.Follows call) (henv : d.frame heap env) (remaining : Nat)
    (keyword : Keyword) {operands : List Value} (code : ∀ e ∈ operands, d.codes.mem e) :
    d.Obeys heap (Form.run remaining call keyword operands env) fun v after => d.value after v := by
  cases keyword with
  | ifForm => exact obeys_runIf calls henv remaining code
  | defineForm => exact (obeys_runDefine calls henv remaining code).mono fun _ _ h => h.1
  | lambdaForm => exact obeys_runLambda henv remaining code
  | beginForm => exact obeys_runBegin calls henv code
  | letForm => exact obeys_runLet calls henv remaining code
  | letStarForm => exact obeys_runLetStar calls henv remaining code
  | letrecForm => exact obeys_runLetrec calls henv remaining code
  | andForm => exact obeys_runAnd calls henv code
  | orForm => exact obeys_runOr calls henv code
  | condForm => exact obeys_runCond calls henv remaining code

/-- One step follows a discipline if the calls that it makes do. -/
theorem Follows.step (calls : d.Follows call) (levels : Nat) : d.Follows (Call.step levels call) := by
  intro heap c admitted
  cases c with
  | eval code env => exact obeys_evalCode calls admitted.2 admitted.1
  | form keyword operands env => exact obeys_form calls admitted.2 levels keyword admitted.1
  | apply procedure args env => exact obeys_applyProcedure calls admitted.1 admitted.2.1
  | nested inner => exact calls heap inner admitted

variable (d) in
/-- **Discipline**: every call that may be made ends as the discipline wants, whatever its nesting. -/
theorem perform (levels : Nat) : d.Follows (Call.perform levels) := by
  induction levels with
  | zero => exact fun heap c _ => obeys_outOfDepth
  | succ levels ih => exact ih.step levels

end Discipline

end ScopedLisp
