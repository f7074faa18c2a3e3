import ScopedLisp.Evaluation.Call
import ScopedLisp.Proofs.Form.Parts

/-!
# ScopedLisp.Proofs.Evaluation.Confinement

What evaluation may do to a heap.  Code that runs in a frame

1. makes frames and closures;
2. names closures: a definition names the closure that it has just made, and `letrec` names closures of
   its own frame that have no name yet;
3. writes slots of frames made since it began to run, and of its own frame if it holds a definition;
4. does nothing else, as long as no procedure of a host is in the heap.

`Enclosure P Own New` says that a property `P` of heaps outlives each of these, where `Own` are the
frames that may be written and `New` those made since.  The main statement, `Enclosure.perform`,
says that `P` then outlives every call, whether the call ends with a value, with an
error or for want of depth: one lemma for each special form and one for each way to
apply a procedure, and an induction over the nesting levels.

`Confinement P Own` is the simpler case of a property that does not depend on the names of closures, of
code that may hold definitions (`Confinement.perform`).
-/

namespace ScopedLisp

open Evaluation

/-- No procedure of a host is in the heap: each is a closure or a primitive. -/
def Heap.Hostless (heap : Heap) : Prop :=
  ∀ name respond, .host name respond ∉ heap.procedures

/-! ## Computations in a row -/

section Results

variable {ε σ α β : Type} {x : EStateM ε σ α} {s after : σ}

/-- After a success, two computations in a row go on with the second. -/
theorem bind_of_ok {a : α} (h : x s = .ok a after) (next : α → EStateM ε σ β) :
    (x >>= next) s = next a after := by
  simp only [Bind.bind, EStateM.bind, h]

/-- After a failure, two computations in a row end with it. -/
theorem bind_of_error {error : ε} (h : x s = .error error after) (next : α → EStateM ε σ β) :
    (x >>= next) s = .error error after := by
  simp only [Bind.bind, EStateM.bind, h]

/-- A success is not handled. -/
theorem tryCatch_of_ok {a : α} (h : x s = .ok a after) (handle : ε → EStateM ε σ α) :
    tryCatch x handle s = .ok a after := by
  change EStateM.tryCatch x handle s = .ok a after
  delta EStateM.tryCatch
  rw [h]

/-- A failure is handled in the state that it left. -/
theorem tryCatch_of_error {error : ε} (h : x s = .error error after) (handle : ε → EStateM ε σ α) :
    tryCatch x handle s = handle error after := by
  change EStateM.tryCatch x handle s = handle error after
  delta EStateM.tryCatch
  rw [h]
  rfl

theorem get_eq (s : σ) : (get : EStateM ε σ σ) s = .ok s s := rfl

end Results

/-! ## Properties that a computation keeps -/

namespace Evaluation

/-- The heap that a computation leaves, whether or not it ends with a value. -/
def heapAfter {α : Type} (x : Evaluation α) (heap : Heap) : Heap :=
  match x heap with
  | .ok _ after | .error _ after => after

/-- From a heap with `P` the computation leaves a heap with `P`, however it ends. -/
def Keeps {α : Type} (P : Heap → Prop) (x : Evaluation α) : Prop :=
  ∀ heap, P heap → P (heapAfter x heap)

variable {α β : Type} {P : Heap → Prop}

theorem Keeps.pure (a : α) : Keeps P (pure a : Evaluation α) := fun _ h => h

/-- Two computations in a row keep what each of them keeps. -/
theorem Keeps.bind {x : Evaluation α} {next : α → Evaluation β} (hx : Keeps P x)
    (hnext : ∀ a, Keeps P (next a)) : Keeps P (x >>= next) := by
  intro heap h
  have hmid := hx heap h
  simp only [heapAfter, Bind.bind, EStateM.bind] at hmid ⊢
  cases hr : x heap with
  | ok a after =>
      rw [hr] at hmid
      exact hnext a after hmid
  | error failure after =>
      rw [hr] at hmid
      exact hmid

theorem Keeps.fail (error : EvalError) : Keeps P (fail error : Evaluation α) := fun _ h => h

theorem Keeps.outOfDepth : Keeps P (outOfDepth : Evaluation α) := fun _ h => h

theorem Keeps.query (f : Heap → Except EvalError α) : Keeps P (query f) := by
  intro heap h
  simp only [heapAfter, Evaluation.query]
  cases f heap <;> exact h

theorem Keeps.failShowing (text : Heap → Except EvalError String) (error : String → EvalError) :
    Keeps P (failShowing text error : Evaluation α) :=
  Keeps.query _

/-- A check of a shape changes nothing. -/
theorem Keeps.shaped (remaining : Nat) (parts : Shape.Checked α) :
    Keeps P (shaped remaining parts) := by
  cases parts with
  | ok a => exact Keeps.pure a
  | error error =>
      simp only [Evaluation.shaped]
      split
      · exact Keeps.outOfDepth
      · exact Keeps.query _

/-- The parts of a checked shape are as the check says. -/
theorem Keeps.shaped_bind {codes : CodeSet} {wanted : α → Prop} {parts : Shape.Checked α}
    (h : Shape.Within codes wanted parts) (remaining : Nat) {next : α → Evaluation β}
    (hnext : ∀ a, wanted a → Keeps P (next a)) : Keeps P (Evaluation.shaped remaining parts >>= next) := by
  cases parts with
  | ok a => exact hnext a h
  | error error =>
      simp only [Evaluation.shaped]
      split <;> exact fun _ h => h

/-- To evaluate a row of expressions keeps what each evaluation keeps. -/
theorem Keeps.evalEach {eval : Value → Evaluation Value} :
    (es : List Value) → (∀ e ∈ es, Keeps P (eval e)) → Keeps P (evalEach eval es)
  | [], _ => Keeps.pure []
  | e :: es, h => by
      refine (h e List.mem_cons_self).bind fun v => ?_
      have rest := Keeps.evalEach es fun e' mem => h e' (List.mem_cons_of_mem e mem)
      exact rest.bind fun vs => Keeps.pure (v :: vs)

/-- To evaluate a row of expressions for the last value keeps what each evaluation keeps. -/
theorem Keeps.evalLast {eval : Value → Evaluation Value} :
    (es : List Value) → (∀ e ∈ es, Keeps P (eval e)) → Keeps P (evalLast eval es)
  | [], _ => Keeps.pure _
  | [e], h => h e List.mem_cons_self
  | e :: e' :: es, h => by
      refine (h e List.mem_cons_self).bind fun _ => ?_
      exact Keeps.evalLast (e' :: es) fun e' mem => h e' (List.mem_cons_of_mem e mem)

end Evaluation

/-! ## Calls and frames -/

/-- Does a call run in a frame of `Own`, if it runs in an existing frame at all?  Application does
not: what is applied runs in a frame of its own. -/
def Call.RunsIn (Own : FrameId → Prop) : Call → Prop
  | .eval _ env | .form _ _ env => Own env
  | .apply _ _ _ => True
  | .nested call => call.RunsIn Own

/-- Does a call write only frames of `Own`, if it writes an existing frame at all?  Its code holds no
definition, or it runs in such a frame. -/
def Call.Respects (Own : FrameId → Prop) : Call → Prop
  | .eval code env => code.Avoids "define" ∨ Own env
  | .form keyword operands env =>
    keyword ≠ .defineForm ∧ (∀ e ∈ operands, e.Avoids "define") ∨ Own env
  | .apply _ _ _ => True
  | .nested call => call.Respects Own

/-- A call that runs in a frame of `Own` writes no other. -/
theorem Call.RunsIn.respects {Own : FrameId → Prop} : {c : Call} → c.RunsIn Own → c.Respects Own
  | .eval _ _, h | .form _ _ _, h => Or.inr h
  | .apply _ _ _, _ => trivial
  | .nested c, h => RunsIn.respects (c := c) h

/-! ## Closures just made -/

/-- A procedure expression, evaluated by the caller, makes a closure without a name and nothing else. -/
def Caller.MakesClosures (call : Caller) : Prop :=
  ∀ {expr : Value} {env : FrameId} {heap after : Heap} {v : Value}, Shape.isLambda expr = true →
    call (.eval expr env) heap = .ok v after →
    ∃ c : Closure, c.name = none ∧ v = .procedure heap.procedures.size ∧
      after = (heap.newProcedure (.closure c)).2

/-- A procedure expression makes a closure of the frame at hand. -/
theorem Call.eq_newClosure_of_isLambda {levels : Nat} {expr : Value} {env : FrameId} {heap after : Heap} {v : Value}
    (lambda : Shape.isLambda expr = true) (h : perform levels (.eval expr env) heap = .ok v after) :
    ∃ c : Closure, c.name = none ∧ c.env = env ∧ v = .procedure heap.procedures.size ∧
      after = (heap.newProcedure (.closure c)).2 := by
  obtain ⟨items, rfl⟩ : ∃ items, expr = .list (.atom "lambda" :: items) := by
    unfold Shape.isLambda at lambda
    split at lambda
    next text items => exact ⟨items, by rw [eq_of_beq lambda]; rfl⟩
    · cases lambda
  -- the expression takes one level, and running its form another one
  rcases levels with _ | _ | levels
  · cases h
  · cases h
  · change Form.runLambda levels items env heap = .ok v after at h
    unfold Form.runLambda at h
    cases hparts : Shape.lambda items with
    | error error =>
        rw [hparts] at h
        simp only [Evaluation.shaped] at h
        split at h <;> cases h
    | ok parts =>
        rw [hparts] at h
        cases h
        exact ⟨_, rfl, rfl, rfl, rfl⟩

/-- Procedure expressions make closures at every nesting level. -/
theorem Call.perform_makesClosures (levels : Nat) : Caller.MakesClosures (Call.perform levels) := by
  intro expr env heap after v lambda h
  obtain ⟨c, unnamed, -, made⟩ := Call.eq_newClosure_of_isLambda lambda h
  exact ⟨c, unnamed, made⟩

/-- Only addresses of procedures lead to procedures. -/
theorem Heap.procedure?_eq_some_iff {heap : Heap} {v : Value} {p : Procedure} :
    heap.procedure? v = some p ↔ ∃ id, v = .procedure id ∧ heap.procedures[id]? = some p := by
  cases v <;> simp [procedure?]

/-- A value that waits for a name is a closure of the frame that has none. -/
theorem Form.exists_of_isFresh {heap : Heap} {f : FrameId} {v : Value} (h : isFresh heap f v = true) :
    ∃ id c, v = .procedure id ∧ heap.procedures[id]? = some (.closure c) ∧ c.name = none ∧ c.env = f := by
  simp only [isFresh, Heap.closure?] at h
  cases hp : heap.procedure? v with
  | none => simp [hp] at h
  | some p =>
      obtain ⟨id, rfl, there⟩ := Heap.procedure?_eq_some_iff.mp hp
      cases p with
      | closure c =>
          simp only [hp, Bool.and_eq_true, Option.isNone_iff_eq_none, beq_iff_eq] at h
          exact ⟨id, c, rfl, there, h.1, h.2⟩
      | _ => simp [hp] at h

/-! ## Enclosure -/

/-- `P` outlives everything that code does to a heap when it may write the frames in `Own`, which
every frame that is `New` is among. -/
structure Enclosure (P : Heap → Prop) (Own New : FrameId → Prop) : Prop where
  hostless {heap : Heap} : P heap → heap.Hostless
  own_of_new {f : FrameId} : New f → Own f
  newFrame {heap : Heap} (parent : Option FrameId) (slots : List (String × Value)) :
    P heap → P (heap.newFrame parent slots).2
  new_newFrame {heap : Heap} : P heap → New heap.frames.size
  newClosure {heap : Heap} (c : Closure) : P heap → P (heap.newProcedure (.closure c)).2
  /-- A closure is made, and named before anything else is done. -/
  nameMade {heap : Heap} {c : Closure} (name : String) : P heap → c.name = none →
    P ((heap.newProcedure (.closure c)).2.nameClosure heap.procedures.size name)
  /-- A closure of a new frame is named. -/
  nameFresh {heap : Heap} {id : ProcedureId} {c : Closure} (name : String) : P heap →
    heap.procedures[id]? = some (.closure c) → c.name = none → New c.env →
    P (heap.nameClosure id name)
  write {heap : Heap} {f : FrameId} (name : String) (value : Value) :
    Own f → P heap → P (heap.write f name value)

namespace Enclosure

variable {P : Heap → Prop} {Own New : FrameId → Prop} {α : Type}

/-! ### Changes of the heap -/

theorem keeps_newClosure (enc : Enclosure P Own New) (c : Closure) :
    Keeps P (Evaluation.newClosure c) :=
  fun _ h => enc.newClosure c h

theorem keeps_write (enc : Enclosure P Own New) {f : FrameId} (own : Own f) (name : String)
    (value : Value) : Keeps P (Evaluation.write f name value) :=
  fun _ h => enc.write name value own h

/-- What follows the making of a frame may count on the frame being new. -/
theorem keeps_newFrame (enc : Enclosure P Own New) {parent : FrameId}
    {slots : List (String × Value)} {next : FrameId → Evaluation α}
    (hnext : ∀ f, New f → Keeps P (next f)) :
    Keeps P (Evaluation.newFrame parent slots >>= next) := by
  intro heap h
  exact hnext heap.frames.size (enc.new_newFrame h) _ (enc.newFrame (some parent) slots h)

/-! ### Special forms

The code of a form is from some set, and so is all code that is evaluated for it in its own frame. -/

variable {call : Caller} {env : FrameId} {codes : CodeSet} {operands : List Value}

section Forms

variable (calls : ∀ e, codes.mem e → Keeps P (call (.eval e env)))

include calls

/-- An `if` keeps what the evaluation of its operands keeps. -/
theorem keeps_runIf (remaining : Nat) (mem : ∀ e ∈ operands, codes.mem e) :
    Keeps P (Form.runIf remaining call operands env) := by
  refine Keeps.shaped_bind (Shape.within_conditional mem) remaining
    fun ⟨test, positive, negative⟩ ⟨mem_test, mem_positive, mem_negative⟩ => ?_
  refine (calls test mem_test).bind fun value => ?_
  split
  · exact calls positive mem_positive
  · cases negative with
    | some e => exact calls e (mem_negative e rfl)
    | none => exact Keeps.pure Value.nil

/-- A `begin` keeps what the evaluation of its operands keeps. -/
theorem keeps_runBegin (mem : ∀ e ∈ operands, codes.mem e) :
    Keeps P (Form.runBegin call operands env) := by
  unfold Form.runBegin
  split
  · exact Keeps.fail _
  · exact Keeps.evalLast operands fun e h => calls e (mem e h)

/-- An `and` keeps what the evaluation of its operands keeps. -/
theorem keeps_runAnd : (es : List Value) → (∀ e ∈ es, codes.mem e) → Keeps P (Form.runAnd call env es)
  | [], _ => Keeps.pure _
  | [e], mem => calls e (mem e List.mem_cons_self)
  | e :: e' :: es, mem => by
      obtain ⟨mem_e, mem_es⟩ := List.forall_mem_cons.mp mem
      refine (calls e mem_e).bind fun value => ?_
      split
      · exact keeps_runAnd (e' :: es) mem_es
      · exact Keeps.pure _

/-- An `or` keeps what the evaluation of its operands keeps. -/
theorem keeps_runOr : (es : List Value) → (∀ e ∈ es, codes.mem e) → Keeps P (Form.runOr call env es)
  | [], _ => Keeps.pure _
  | e :: es, mem => by
      obtain ⟨mem_e, mem_es⟩ := List.forall_mem_cons.mp mem
      refine (calls e mem_e).bind fun value => ?_
      split
      · exact Keeps.pure value
      · exact keeps_runOr es mem_es

/-- A `cond` keeps what the evaluation of its clauses keeps. -/
theorem keeps_runCond (remaining : Nat) {clauses : List Value} (mem : ∀ e ∈ clauses, codes.mem e) :
    Keeps P (Form.runCond remaining call env clauses) := by
  have last : ∀ es, (∀ e ∈ es, codes.mem e) → Keeps P (evalLast (fun e => call (.eval e env)) es) :=
    fun es mem => Keeps.evalLast es fun e h => calls e (mem e h)
  fun_induction Form.runCond remaining call env clauses with
  | case1 => exact Keeps.pure _
  | case2 | case3 => exact Keeps.fail _
  | case4 test body =>
      have mem_clause := mem _ List.mem_cons_self
      exact last body (List.forall_mem_cons.mp (codes.list.mp mem_clause)).2
  | case5 test body rest _ ih =>
      obtain ⟨mem_clause, mem_rest⟩ := List.forall_mem_cons.mp mem
      obtain ⟨mem_test, mem_body⟩ := List.forall_mem_cons.mp (codes.list.mp mem_clause)
      refine (calls test mem_test).bind fun value => ?_
      split
      · exact ih mem_rest
      · split
        · exact Keeps.pure value
        · exact last body mem_body
  | case6 => exact Keeps.shaped remaining _

end Forms

/-- A `lambda` keeps what a new closure does. -/
theorem keeps_runLambda (enc : Enclosure P Own New) (remaining : Nat) (operands : List Value) :
    Keeps P (Form.runLambda remaining operands env) :=
  (Keeps.shaped remaining _).bind fun ⟨_, _⟩ => enc.keeps_newClosure _

/-- Only a definition writes the frame that it runs in. -/
theorem keeps_runDefine (enc : Enclosure P Own New) (own : Own env) (makes : Caller.MakesClosures call)
    (calls : ∀ e, Keeps P (call (.eval e env))) (remaining : Nat) (operands : List Value) :
    Keeps P (Form.runDefine remaining call operands env) := by
  refine (Keeps.shaped remaining _).bind fun definition => ?_
  cases definition with
  | procedure name formals body =>
      refine (enc.keeps_newClosure _).bind fun closure => ?_
      exact (enc.keeps_write own name closure).bind fun _ => Keeps.pure Value.nil
  | value name expr =>
      have finish : ∀ value,
          Keeps P (Evaluation.write env name value >>= fun _ => Pure.pure Value.nil) :=
        fun value => (enc.keeps_write own name value).bind fun _ => Keeps.pure Value.nil
      intro heap h
      have kept := calls expr heap h
      simp only [heapAfter, Bind.bind, EStateM.bind] at kept ⊢
      cases hv : call (.eval expr env) heap with
      | error failure after =>
          rw [hv] at kept
          exact kept
      | ok value after =>
          rw [hv] at kept
          by_cases lambda : Shape.isLambda expr = true
          · obtain ⟨c, unnamed, rfl, rfl⟩ := makes lambda hv
            simp only [lambda, if_true]
            exact finish _ _ (enc.nameMade name h unnamed)
          · simp only [lambda]
            exact finish value after kept

/-! ### Forms with a frame of their own -/

/-- A `let` keeps what its values keep outside and its body inside a new frame. -/
theorem keeps_runLet (enc : Enclosure P Own New)
    (calls : ∀ e, codes.mem e → Keeps P (call (.nested (.eval e env))))
    (inner : ∀ f, New f → ∀ e, Keeps P (call (.eval e f))) (remaining : Nat)
    (mem : ∀ e ∈ operands, codes.mem e) : Keeps P (Form.runLet remaining call operands env) := by
  refine Keeps.shaped_bind (Shape.within_letParts "let" false mem) remaining
    fun ⟨bindings, body⟩ ⟨mem_bindings, _⟩ => ?_
  have values : ∀ e ∈ bindings.map (·.2), codes.mem e := by
    rw [List.forall_mem_map]
    exact mem_bindings
  refine (Keeps.evalEach _ fun e h => calls e (values e h)).bind fun values => ?_
  exact enc.keeps_newFrame fun frame new => inner frame new body

/-- To bind in order writes the new frame alone. -/
theorem keeps_bindInOrder (enc : Enclosure P Own New) {frame : FrameId} (new : New frame)
    (calls : ∀ e, Keeps P (call (.eval e frame))) :
    (bindings : List (String × Value)) → Keeps P (Form.bindInOrder call frame bindings)
  | [] => Keeps.pure ()
  | (name, expr) :: rest =>
      (calls expr).bind fun value =>
        (enc.keeps_write (enc.own_of_new new) name value).bind fun _ =>
          enc.keeps_bindInOrder new calls rest

/-- A `let*` runs inside a new frame. -/
theorem keeps_runLetStar (enc : Enclosure P Own New)
    (inner : ∀ f, New f → ∀ e, Keeps P (call (.eval e f))) (remaining : Nat)
    (operands : List Value) : Keeps P (Form.runLetStar remaining call operands env) := by
  refine (Keeps.shaped remaining _).bind fun ⟨bindings, body⟩ => ?_
  refine enc.keeps_newFrame fun frame new => ?_
  exact (enc.keeps_bindInOrder new (inner frame new) bindings).bind fun _ => inner frame new body

/-- To assign in order writes the new frame alone, and names no closure but those of it. -/
theorem keeps_assignInOrder (enc : Enclosure P Own New) {frame : FrameId} (new : New frame)
    (calls : ∀ e, Keeps P (call (.eval e frame))) :
    (bindings : List (String × Value)) → Keeps P (Form.assignInOrder call frame bindings)
  | [] => Keeps.pure ()
  | (name, expr) :: rest => by
      have finish : ∀ value, Keeps P (do
          Evaluation.write frame name value
          Form.assignInOrder call frame rest) := fun value =>
        (enc.keeps_write (enc.own_of_new new) name value).bind fun _ =>
          enc.keeps_assignInOrder new calls rest
      refine (calls expr).bind fun value => ?_
      -- whether the value is named depends on the heap in which it is looked at
      intro heap h
      show P (heapAfter (if Form.isFresh heap frame value then _ else _) heap)
      split
      next fresh =>
        obtain ⟨id, c, rfl, there, unnamed, rfl⟩ := Form.exists_of_isFresh fresh
        exact finish _ _ (enc.nameFresh name h there unnamed new)
      · exact finish value heap h

/-- A `letrec` runs inside a new frame. -/
theorem keeps_runLetrec (enc : Enclosure P Own New)
    (inner : ∀ f, New f → ∀ e, Keeps P (call (.eval e f))) (remaining : Nat)
    (operands : List Value) : Keeps P (Form.runLetrec remaining call operands env) := by
  refine (Keeps.shaped remaining _).bind fun ⟨bindings, body⟩ => ?_
  refine enc.keeps_newFrame fun frame new => ?_
  exact (enc.keeps_assignInOrder new (inner frame new) bindings).bind fun _ => inner frame new body

/-! ### Calls -/

variable (enc : Enclosure P Own New)
  (calls : ∀ c : Call, c.Respects Own → Keeps P (call c))

include calls

/-- Evaluating a list keeps `P`, if the calls made for it do. -/
theorem keeps_evalItems {items : List Value} (h : (∀ e ∈ items, e.Avoids "define") ∨ Own env) :
    Keeps P (Call.evalItems call items env) := by
  cases items with
  | nil => exact Keeps.fail _
  | cons head operands =>
      have here : ∀ e ∈ head :: operands, e.Avoids "define" ∨ Own env := fun e mem =>
        h.imp_left fun avoids => avoids e mem
      simp only [Call.evalItems]
      cases hk : Keyword.ofHead? head with
      | some keyword =>
          refine calls (.form keyword operands env) (h.imp_left fun avoids => ?_)
          obtain ⟨avoids_head, avoids_operands⟩ := List.forall_mem_cons.mp avoids
          refine ⟨?_, avoids_operands⟩
          rintro rfl
          exact Value.Avoids.ofHead?_ne .defineForm avoids_head hk
      | none =>
          refine (calls (.eval head env) (here head List.mem_cons_self)).bind fun procedure => ?_
          refine (Keeps.evalEach operands fun e mem => ?_).bind fun args => ?_
          · exact calls (.nested (.eval e env)) (here e (List.mem_cons_of_mem head mem))
          · exact calls (.apply procedure args env) trivial

/-- Evaluating code keeps `P`, if the calls made for it do. -/
theorem keeps_evalCode {code : Value} (h : code.Avoids "define" ∨ Own env) :
    Keeps P (Call.evalCode call code env) := by
  cases code with
  | atom text =>
      simp only [Call.evalCode, Call.evalAtom]
      cases Literal.ofText text with
      | oversized digits => exact Keeps.fail _
      | name => exact Keeps.query _
      | _ => exact Keeps.pure _
  | list items => exact keeps_evalItems calls (h.imp_left Value.Avoids.of_list)
  | array items => exact keeps_evalItems calls (h.imp_left Value.Avoids.of_array)
  | _ => exact Keeps.failShowing _ _

include enc

/-- Every special form keeps `P`, if the calls that it makes do. -/
theorem keeps_form (makes : Caller.MakesClosures call) (remaining : Nat) {keyword : Keyword}
    (codes : CodeSet) (own : keyword ≠ .defineForm ∨ Own env)
    (here : ∀ e, codes.mem e → e.Avoids "define" ∨ Own env) (mem : ∀ e ∈ operands, codes.mem e) :
    Keeps P (Form.run remaining call keyword operands env) := by
  have evals : ∀ e, codes.mem e → Keeps P (call (.eval e env)) := fun e h => calls _ (here e h)
  have inner : ∀ f, New f → ∀ e, Keeps P (call (.eval e f)) :=
    fun f new e => calls _ (Or.inr (enc.own_of_new new))
  cases keyword with
  | ifForm => exact keeps_runIf evals remaining mem
  | defineForm =>
      have own : Own env := own.resolve_left fun ne => ne rfl
      exact enc.keeps_runDefine own makes (fun e => calls _ (Or.inr own)) remaining operands
  | lambdaForm => exact enc.keeps_runLambda remaining operands
  | beginForm => exact keeps_runBegin evals mem
  | letForm => exact enc.keeps_runLet (fun e h => calls _ (here e h)) inner remaining mem
  | letStarForm => exact enc.keeps_runLetStar inner remaining operands
  | letrecForm => exact enc.keeps_runLetrec inner remaining operands
  | andForm => exact keeps_runAnd evals operands mem
  | orForm => exact keeps_runOr evals operands mem
  | condForm => exact keeps_runCond evals remaining mem

/-- Application keeps `P`, whatever frame it is made from: a body runs in a new frame, primitives
leave the heap alone, and there is nothing else to apply. -/
theorem keeps_applyProcedure (procedure : Value) (args : List Value) :
    Keeps P (Call.applyProcedure call procedure args env) := by
  intro heap h
  simp only [Call.applyProcedure, heapAfter, bind, EStateM.bind, view]
  cases hp : heap.procedure? procedure with
  | none => exact Keeps.failShowing _ _ heap h
  | some found =>
      cases found with
      | closure c =>
          have enter : Keeps P (Call.enter call c args) := by
            unfold Call.enter
            split
            · exact enc.keeps_newFrame fun frame new =>
                calls (.nested (.eval c.body frame)) (Or.inr (enc.own_of_new new))
            · exact Keeps.fail _
          exact enter heap h
      | primitive name primitive => exact Keeps.query _ heap h
      | host name respond =>
          obtain ⟨id, rfl, there⟩ := Heap.procedure?_eq_some_iff.mp hp
          exact absurd (Array.mem_of_getElem? there) (enc.hostless h name respond)

omit calls

/-- **Enclosure**: what outlives the single changes outlives every call that writes only frames of
`Own`, whatever its nesting and however it ends. -/
theorem perform (levels : Nat) {c : Call} (h : c.Respects Own) : Keeps P (Call.perform levels c) := by
  induction levels generalizing c with
  | zero => exact Keeps.outOfDepth
  | succ levels ih =>
      have calls : ∀ c : Call, c.Respects Own → Keeps P (Call.perform levels c) := fun c h => ih h
      cases c with
      | eval code env => exact keeps_evalCode calls h
      | form keyword operands env =>
          have makes : Caller.MakesClosures (Call.perform levels) := Call.perform_makesClosures levels
          rcases h with ⟨ne, avoids⟩ | own
          · exact enc.keeps_form calls makes levels (.avoiding "define" (by decide)) (Or.inl ne)
              (fun _ => Or.inl) avoids
          · exact enc.keeps_form calls makes levels .all (Or.inr own) (fun _ _ => Or.inr own)
              fun _ _ => trivial
      | apply procedure args env => exact enc.keeps_applyProcedure calls procedure args
      | nested inner => exact ih h

end Enclosure

/-! ## Confinement -/

/-- `P` outlives everything that code does to a heap when it may write the frames in `Own`, which
every new frame is among. -/
structure Confinement (P : Heap → Prop) (Own : FrameId → Prop) : Prop where
  hostless {heap : Heap} : P heap → heap.Hostless
  newFrame {heap : Heap} (parent : Option FrameId) (slots : List (String × Value)) :
    P heap → P (heap.newFrame parent slots).2
  own_newFrame {heap : Heap} : P heap → Own heap.frames.size
  newClosure {heap : Heap} (c : Closure) : P heap → P (heap.newProcedure (.closure c)).2
  nameClosure {heap : Heap} (id : ProcedureId) (name : String) :
    P heap → P (heap.nameClosure id name)
  write {heap : Heap} {f : FrameId} (name : String) (value : Value) :
    Own f → P heap → P (heap.write f name value)

namespace Confinement

variable {P : Heap → Prop} {Own : FrameId → Prop}

/-- A confinement is an enclosure in which every frame of `Own` counts as new. -/
theorem enclosure (conf : Confinement P Own) : Enclosure P Own Own where
  hostless := conf.hostless
  own_of_new := id
  newFrame := conf.newFrame
  new_newFrame := conf.own_newFrame
  newClosure := conf.newClosure
  nameMade name h _ := conf.nameClosure _ name (conf.newClosure _ h)
  nameFresh name h _ _ _ := conf.nameClosure _ name h
  write := conf.write

/-- **Confinement**: what outlives the single changes outlives every call that runs in a frame of
`Own`, whatever its nesting and however it ends. -/
theorem perform (conf : Confinement P Own) (levels : Nat) {c : Call} (h : c.RunsIn Own) :
    Keeps P (Call.perform levels c) :=
  conf.enclosure.perform levels h.respects

end Confinement

end ScopedLisp
