import ScopedLisp.Proofs.Evaluation.Moments
import ScopedLisp.Proofs.Evaluation.Unbounded
import ScopedLisp.Proofs.Form.Grammar

/-!
# ScopedLisp.Proofs.Evaluation.MalformedForms

A malformed form fails before it does anything, and a well-formed one fails only because an expression in it
does.

All checks of a form come first: where they find a fault, the form ends with its error whatever its calls would
come to (`Form.run_of_fault`).  Where they find none, the form only *delegates* (`Form.delegates`): it evaluates
expressions that stand in it, and has no errors of its own.
-/

namespace ScopedLisp

open Evaluation

/-! ## Computations that only delegate -/

/-- A script makes no calls but these, and has no errors of its own. -/
def Script.Delegates {α : Type} (calls : Call → Prop) : Script α → Prop
  | .done result => ∀ error after, result ≠ .error (.error error) after
  | .ask c _ next => calls c ∧ ∀ v heap, (next v heap).Delegates calls

namespace Script

variable {α β : Type} {calls : Call → Prop} {script : Script α}

/-- Computations in a row make no more calls than they do each. -/
theorem Delegates.bind {next : α → Heap → Script β} (delegates : script.Delegates calls)
    (hnext : ∀ a heap, (next a heap).Delegates calls) : (script.bind next).Delegates calls := by
  induction script with
  | done result =>
      cases result with
      | ok a heap => exact hnext a heap
      | error failure heap =>
          intro error after eq
          cases eq
          exact delegates error heap rfl
  | ask c heap more ih => exact ⟨delegates.1, fun v after => ih v after (delegates.2 v after)⟩

/-- What only delegates has no errors of its own. -/
theorem Delegates.failsBy (delegates : script.Delegates calls) : script.FailsBy fun _ => False := by
  induction script with
  | done result =>
      cases result with
      | ok a after => trivial
      | error failure after =>
          cases failure with
          | error error => exact delegates error after rfl
          | outOfDepth => trivial
  | ask c heap next ih => exact fun v after => ih v after (delegates.2 v after)

/-- Each call that is asked for is one of those delegated to. -/
theorem Delegates.of_asks (delegates : script.Delegates calls) {call : Caller} {inner : Call} {start : Heap}
    (asks : script.Asks call inner start) : calls inner := by
  induction script with
  | done result => exact absurd asks (not_forall_failure _)
  | ask c heap next ih =>
      rcases asks.cases_ask with ⟨rfl, -⟩ | ⟨v, mid, -, asks⟩
      · exact delegates.1
      · exact ih v mid (delegates.2 v mid) asks

end Script

/-- A computation that makes no calls but these, and has no errors of its own. -/
def Delegates {α : Type} (calls : Call → Prop) (x : Caller → Evaluation α) : Prop :=
  ∀ heap, ∃ script : Script α, script.Delegates calls ∧ ∀ call, x call heap = script.run call

namespace Delegates

variable {α β : Type} {calls : Call → Prop} {x : Caller → Evaluation α}

/-- Where such a computation fails, a call of it fails. -/
theorem exists_failing (delegates : Delegates calls x) {call : Caller} {heap after : Heap} {error : EvalError}
    (h : x call heap = .error (.error error) after) :
    ∃ inner start, calls inner ∧ call inner start = .error (.error error) after ∧ ∀ failure last,
      x (Caller.failingAt call inner start failure last) heap = .error failure last := by
  obtain ⟨script, delegates, runs⟩ := delegates heap
  rcases script.failure delegates.failsBy ((runs call).symm.trans h) with own | ⟨inner, start, fails, asks⟩
  · exact own.elim
  · exact ⟨inner, start, delegates.of_asks asks, fails, fun failure last => (runs _).trans (asks failure last)⟩

/-- A computation without calls and errors. -/
theorem alone {x : Evaluation α} (fine : ∀ heap error after, x heap ≠ .error (.error error) after) :
    Delegates calls fun _ => x :=
  fun heap => ⟨.done (x heap), fine heap, fun _ => rfl⟩

theorem pure (a : α) : Delegates calls fun _ => (Pure.pure a : Evaluation α) := alone fun _ => nofun

theorem write (f : FrameId) (name : String) (v : Value) : Delegates calls fun _ => write f name v :=
  alone fun _ => nofun

theorem newFrame (parent : FrameId) (slots : List (String × Value)) :
    Delegates calls fun _ => newFrame parent slots :=
  alone fun _ => nofun

theorem newClosure (c : Closure) : Delegates calls fun _ => newClosure c := alone fun _ => nofun

theorem nameClosure (v : Value) (name : String) : Delegates calls fun _ => nameClosure v name :=
  alone fun heap error after => by cases v <;> nofun

theorem call {c : Call} (mem : calls c) : Delegates calls fun call => call c := by
  refine fun heap => ⟨.ask c heap fun v after => .done (.ok v after), ⟨mem, fun _ _ => nofun⟩, fun call => ?_⟩
  simp only [Script.run]
  cases call c heap <;> rfl

theorem bind {next : Caller → α → Evaluation β} (hx : Delegates calls x)
    (hnext : ∀ a, Delegates calls fun call => next call a) : Delegates calls fun call => x call >>= next call := by
  intro heap
  obtain ⟨script, delegates, runs⟩ := hx heap
  choose more hmore moreRuns using hnext
  refine ⟨script.bind more, delegates.bind hmore, fun call => ?_⟩
  rw [Script.run_bind, ← runs]
  simp only [Bind.bind, EStateM.bind]
  cases x call heap with
  | ok a after => exact moreRuns a after call
  | error failure after => rfl

theorem ite {p : Prop} [Decidable p] {y : Caller → Evaluation α} (hx : Delegates calls x) (hy : Delegates calls y) :
    Delegates calls fun call => if p then x call else y call := by
  split
  · exact hx
  · exact hy

/-- What is evaluated in turn delegates to its members. -/
theorem evalEach {eval : Caller → Value → Evaluation Value} {es : List Value}
    (heval : ∀ e ∈ es, Delegates calls fun call => eval call e) :
    Delegates calls fun call => Evaluation.evalEach (eval call) es := by
  induction es with
  | nil => exact pure []
  | cons e es ih =>
      obtain ⟨first, rest⟩ := List.forall_mem_cons.mp heval
      exact first.bind fun v => (ih rest).bind fun vs => pure (v :: vs)

/-- What is evaluated in turn for its last value delegates to its members. -/
theorem evalLast {eval : Caller → Value → Evaluation Value} {es : List Value}
    (heval : ∀ e ∈ es, Delegates calls fun call => eval call e) :
    Delegates calls fun call => Evaluation.evalLast (eval call) es := by
  induction es with
  | nil => exact pure _
  | cons e es ih =>
      obtain ⟨first, rest⟩ := List.forall_mem_cons.mp heval
      cases es with
      | nil => exact first
      | cons e' es => exact first.bind fun _ => ih rest

variable {env : FrameId}

/-- `and` delegates to its operands. -/
theorem runAnd {es : List Value} (mem : ∀ e ∈ es, calls (.eval e env)) :
    Delegates calls fun call => Form.runAnd call env es := by
  induction es with
  | nil => exact pure _
  | cons e es ih =>
      obtain ⟨first, rest⟩ := List.forall_mem_cons.mp mem
      cases es with
      | nil => exact call first
      | cons e' es => exact (call first).bind fun _ => ite (ih rest) (pure _)

/-- `or` delegates to its operands. -/
theorem runOr {es : List Value} (mem : ∀ e ∈ es, calls (.eval e env)) :
    Delegates calls fun call => Form.runOr call env es := by
  induction es with
  | nil => exact pure _
  | cons e es ih =>
      obtain ⟨first, rest⟩ := List.forall_mem_cons.mp mem
      exact (call first).bind fun v => ite (pure v) (ih rest)

/-- The bindings of `let*` delegate to their expressions, in the new frame. -/
theorem bindInOrder {frame : FrameId} {bindings : List (String × Value)}
    (mem : ∀ binding ∈ bindings, calls (.eval binding.2 frame)) :
    Delegates calls fun call => Form.bindInOrder call frame bindings := by
  induction bindings with
  | nil => exact pure ()
  | cons binding bindings ih =>
      obtain ⟨first, rest⟩ := List.forall_mem_cons.mp mem
      exact (call first).bind fun v => (write frame binding.1 v).bind fun _ => ih rest

/-- The bindings of `letrec` delegate to their expressions, in the new frame. -/
theorem assignInOrder {frame : FrameId} {bindings : List (String × Value)}
    (mem : ∀ binding ∈ bindings, calls (.eval binding.2 frame)) :
    Delegates calls fun call => Form.assignInOrder call frame bindings := by
  induction bindings with
  | nil => exact pure ()
  | cons binding bindings ih =>
      obtain ⟨first, rest⟩ := List.forall_mem_cons.mp mem
      refine (call first).bind fun v => ?_
      have finish : Delegates calls fun call => (do
          Evaluation.write frame binding.1 v
          Form.assignInOrder call frame bindings) := (write frame binding.1 v).bind fun _ => ih rest
      refine (alone (x := view (Form.isFresh · frame v)) fun _ => nofun).bind fun fresh => ?_
      exact ite ((nameClosure v binding.1).bind fun _ => finish) finish

end Delegates

namespace Form

/-! ## Forms without a fault -/

/-- The calls by which a form evaluates expressions: one by one, or several of them as a body. -/
inductive Evaluates (es : List Value) : Call → Prop where
  | one {e : Value} (env : FrameId) : e ∈ es → Evaluates es (.eval e env)
  | nested {e : Value} (env : FrameId) : e ∈ es → Evaluates es (.nested (.eval e env))
  | body {forms : List Value} (env : FrameId) : forms ≠ [] → (∀ e ∈ forms, e ∈ es) →
      Evaluates es (.eval (sequence forms) env)

/-- The expressions that bindings bind stand in a `let`. -/
theorem bound_mem {bindings : List (String × Value)} (body : List Value) :
    ∀ binding ∈ bindings, binding.2 ∈ (bindings.map bindingCode).filterMap boundExpr? ++ body := by
  intro binding mem
  rw [filterMap_boundExpr?]
  exact List.mem_append_left _ (List.mem_map_of_mem mem)

/-- **A form without a fault only delegates**: it evaluates expressions that stand in it, and has no errors of
its own. -/
theorem delegates {keyword : Keyword} {operands : List Value} (proper : Proper keyword operands) (remaining : Nat)
    (env : FrameId) :
    Delegates (Evaluates (parts keyword operands)) fun call => run remaining call keyword operands env := by
  have one : ∀ {es : List Value} (env : FrameId), ∀ e ∈ es,
      Delegates (Evaluates es) fun call => call (.eval e env) := fun env e mem => .call (.one env mem)
  cases proper with
  | ifThen test positive =>
      simp only [run, runIf, Shape.conditional, shaped, pure_bind]
      exact (one env test (by simp [parts])).bind fun v => .ite (one env positive (by simp [parts])) (.pure _)
  | ifThenElse test positive negative =>
      simp only [run, runIf, Shape.conditional, shaped, pure_bind]
      exact (one env test (by simp [parts])).bind fun v =>
        .ite (one env positive (by simp [parts])) (one env negative (by simp [parts]))
  | @define name e is_name =>
      simp only [run, runDefine, Shape.definition_code is_name, shaped, pure_bind]
      refine (one env e (by simp [parts])).bind fun v => ?_
      have finish : ∀ calls, Delegates calls fun _ => (do
          Evaluation.write env name v
          return Value.nil) := fun calls => (Delegates.write env name v).bind fun _ => .pure Value.nil
      split
      · exact (Delegates.nameClosure v name).bind fun _ => finish _
      · exact finish _
  | defineProcedure is_name are_names distinct nonempty =>
      simp only [run, runDefine, Shape.definition_header is_name are_names distinct nonempty, shaped, pure_bind]
      exact (Delegates.newClosure _).bind fun v => (Delegates.write env _ v).bind fun _ => .pure _
  | lambda are_names distinct nonempty =>
      simp only [run, runLambda, Shape.lambda_code are_names distinct nonempty, shaped, pure_bind]
      exact .newClosure _
  | @sequence es nonempty =>
      simp only [run, runBegin, if_neg (show ¬operands.isEmpty = true by simpa using nonempty)]
      exact .evalLast (one env)
  | @letTogether bindings body are_names distinct nonempty =>
      simp only [run, runLet, Shape.letParts_code are_names (Or.inr distinct) nonempty, shaped, pure_bind]
      refine (Delegates.evalEach fun e mem => ?_).bind fun values => (Delegates.newFrame _ _).bind fun frame => ?_
      · obtain ⟨binding, bound, rfl⟩ := List.mem_map.mp mem
        exact .call (.nested env (bound_mem body binding bound))
      · exact .call (.body frame nonempty fun e mem => List.mem_append_right _ mem)
  | @letInOrder bindings body are_names nonempty =>
      simp only [run, runLetStar, Shape.letParts_code are_names (Or.inl rfl) nonempty, shaped, pure_bind]
      refine (Delegates.newFrame _ _).bind fun frame => (Delegates.bindInOrder ?_).bind fun _ => ?_
      · exact fun binding mem => .one frame (bound_mem body binding mem)
      · exact .call (.body frame nonempty fun e mem => List.mem_append_right _ mem)
  | @letRecursive bindings body are_names distinct nonempty =>
      simp only [run, runLetrec, Shape.letParts_code are_names (Or.inr distinct) nonempty, shaped, pure_bind]
      refine (Delegates.newFrame _ _).bind fun frame => (Delegates.assignInOrder ?_).bind fun _ => ?_
      · exact fun binding mem => .one frame (bound_mem body binding mem)
      · exact .call (.body frame nonempty fun e mem => List.mem_append_right _ mem)
  | all => exact .runAnd fun e mem => .one env mem
  | any => exact .runOr fun e mem => .one env mem

/-! ## Forms with a fault -/

/-- What would follow a fault of the shape is not reached. -/
theorem shaped_error_bind {α β : Type} (remaining : Nat) (error : ShapeError Value) (next : α → Evaluation β) :
    (shaped remaining (.error error) >>= next) = shaped remaining (.error error) := by
  simp only [shaped]
  split <;> rfl

/-- **A form with a fault ends with its error**, whatever calls would come to. -/
theorem run_of_fault {keyword : Keyword} {operands : List Value} {error : ShapeError Value}
    (h : fault? keyword operands = some error) (remaining : Nat) (call : Caller) (env : FrameId) :
    run remaining call keyword operands env = shaped remaining (.error error) := by
  have of_checked : ∀ {α : Type} {checked : Shape.Checked α}, fault?.errorOf? checked = some error →
      ∀ next : α → Evaluation Value, (shaped remaining checked >>= next) = shaped remaining (.error error) := by
    intro α checked h next
    cases checked with
    | ok parts => cases h
    | error error =>
        cases h
        exact shaped_error_bind remaining error next
  cases keyword with
  | ifForm | defineForm | lambdaForm | letForm | letStarForm | letrecForm => exact of_checked h _
  | beginForm =>
      cases operands with
      | nil =>
          cases h
          rfl
      | cons => cases h
  | andForm | orForm | condForm => cases h

end Form

/-! ## Runs -/

namespace Call

variable {keyword : Keyword} {operands : List Value} {env : FrameId} {heap : Heap}

/-- To evaluate a form is to run it. -/
theorem step_code (levels : Nat) (call : Caller) (keyword : Keyword) (operands : List Value) (env : FrameId) :
    step levels call (.eval (Form.code keyword operands) env) = call (.form keyword operands env) := by
  have found : Keyword.ofHead? (.atom keyword.name) = some keyword := Keyword.ofName?_name keyword
  simp only [step, Form.code, evalCode, evalItems, found]

/-- Code that is no form is an application. -/
theorem perform_application {levels : Nat} {head : Value} (none : Keyword.ofHead? head = none)
    (operands : List Value) (env : FrameId) :
    perform (levels + 1) (.eval (.list (head :: operands)) env) = (do
      let procedure ← perform levels (.eval head env)
      let args ← evalEach (fun e => perform levels (.nested (.eval e env))) operands
      perform levels (.apply procedure args env)) := by
  rw [perform]
  simp only [step, evalCode, evalItems, none]

namespace Run

/-- A step that does nothing but another call makes the run of that call. -/
theorem makes_of_step_eq {levels : Nat} {c c' : Call} (h : ∀ call, step levels call c = call c') (heap : Heap) :
    Makes ⟨levels + 1, c, heap⟩ ⟨levels, c', heap⟩ :=
  ⟨rfl, fun failure last => by rw [h, Caller.failingAt, if_pos ⟨rfl, rfl⟩]⟩

/-- It makes no other run. -/
theorem Makes.eq_of_step_eq {levels : Nat} {c c' : Call} {inner : Run}
    (h : ∀ levels call, step levels call c = call c') (makes : Makes ⟨levels, c, heap⟩ inner) :
    inner.call = c' ∧ inner.heap = heap := by
  obtain ⟨-, fails⟩ := makes
  simp only [h, Caller.failingAt] at fails
  split at fails
  next same => exact ⟨same.1.symm, same.2.symm⟩
  · exact absurd fails (Script.not_forall_failure _)

/-- A step that is the same whatever its calls would come to makes none. -/
theorem not_makes_of_step_eq {levels : Nat} {c : Call} {inner : Run} {result : Nat → Evaluation Value}
    (h : ∀ levels call, step levels call c = result levels) : ¬Makes ⟨levels, c, heap⟩ inner := by
  rintro ⟨-, fails⟩
  simp only [h] at fails
  exact Script.not_forall_failure _ fails

end Run

/-- A form with a fault evaluates nothing. -/
theorem eq_of_involves_of_fault {error : ShapeError Value} (fault : Form.fault? keyword operands = some error)
    {levels : Nat} {inner : Run}
    (involves : Run.Involves ⟨levels, .eval (Form.code keyword operands) env, heap⟩ inner) :
    inner.call = .eval (Form.code keyword operands) env ∨ inner.call = .form keyword operands env := by
  rcases Relation.ReflTransGen.cases_head involves with rfl | ⟨⟨levels', c, start⟩, makes, involves⟩
  · exact Or.inl rfl
  · obtain ⟨rfl, -⟩ := makes.eq_of_step_eq fun levels call => step_code levels call keyword operands env
    rcases Relation.ReflTransGen.cases_head involves with rfl | ⟨next, makes, -⟩
    · exact Or.inr rfl
    · exact absurd makes (Run.not_makes_of_step_eq fun levels call => Form.run_of_fault fault levels call env)

/-- A form with a fault comes to its error, in the heap as it was. -/
theorem comesTo_of_fault {error : ShapeError Value} (fault : Form.fault? keyword operands = some error)
    (env : FrameId) (heap : Heap) :
    ComesTo (fun levels => perform levels (.eval (Form.code keyword operands) env)) heap
      (.error (.error (error.report heap)) heap) := by
  let enough := (error.found?.map Value.sourceLevels).getD 0
  refine comesTo_of_perform (enough + 2) ?_ nofun
  rw [perform, step_code, perform, step, Form.run_of_fault fault, shaped, if_neg (Nat.lt_irrefl enough)]
  rfl

/-- Where a form without a fault fails, an expression fails that stands in it. -/
theorem exists_failing_part (proper : Form.Proper keyword operands) {levels : Nat} {error : EvalError}
    {after : Heap}
    (h : perform levels (.eval (Form.code keyword operands) env) heap = .error (.error error) after) :
    ∃ e ∈ Form.parts keyword operands, ∃ inner : Run,
      Run.Involves ⟨levels, .eval (Form.code keyword operands) env, heap⟩ inner ∧
      (∃ f, inner.call = .eval e f) ∧ inner.result = .error (.error error) after := by
  induction levels using Nat.strongRecOn generalizing keyword operands env heap with
  | _ levels ih =>
    rcases levels with _ | _ | levels
    · cases h
    · rw [perform, step_code] at h
      cases h
    · rw [perform, step_code] at h
      obtain ⟨inner, start, evaluates, fails, asks⟩ := (Form.delegates proper levels env).exists_failing h
      have enters := Run.makes_of_step_eq (step_code (levels + 1) · keyword operands env) heap
      have makes : Run.Makes ⟨levels + 1, .form keyword operands env, heap⟩ ⟨levels, inner, start⟩ := ⟨rfl, asks⟩
      have involves : Run.Involves ⟨levels + 2, .eval (Form.code keyword operands) env, heap⟩
          ⟨levels, inner, start⟩ := .head enters (.single makes)
      cases evaluates with
      | @one e f mem => exact ⟨e, mem, _, involves, ⟨f, rfl⟩, fails⟩
      | @nested e f mem =>
          rcases levels with _ | levels
          · cases fails
          · have inside : Run.Makes ⟨levels + 1, .nested (.eval e f), start⟩ ⟨levels, .eval e f, start⟩ :=
              Run.makes_of_step_eq (fun call => rfl) start
            exact ⟨e, mem, _, involves.tail inside, ⟨f, rfl⟩, fails⟩
      | @body forms f nonempty mem =>
          rcases forms with _ | ⟨e, _ | ⟨e', es⟩⟩
          · exact absurd rfl nonempty
          · exact ⟨e, mem e List.mem_cons_self, _, involves, ⟨f, rfl⟩, fails⟩
          · obtain ⟨part, among, last, rest, evaluates, result⟩ :=
              ih levels (Nat.lt_add_of_pos_right Nat.two_pos) (.sequence nonempty) fails
            exact ⟨part, mem part among, last, involves.trans rest, evaluates, result⟩

end Call

/-- **Malformed forms fail before they do anything, and only they do**: for every form but `cond`, which has no
shape as a whole, with any operands, in every heap and frame.

* If its operands are not such as the grammar wants, and no atom among them is an integer of too many digits, it
  ends with an error of the class of malformed forms, or of the one below it, away from the limit on nested calls.
  The heap is as it was, and nothing is evaluated: with any number of levels, evaluation involves no call but
  itself and the one that runs the form.
* If they are, every error that it ends with is the error of an expression that stands in it and that it
  evaluates. -/
theorem malformed_forms_fail_first {keyword : Keyword} (checked : keyword ≠ .condForm) (operands : List Value)
    (heap : Heap) (env : FrameId) :
    let code := Form.code keyword operands
    (¬Form.Proper keyword operands →
      (∀ e ∈ operands, e.Written fun text => ∀ digits, Literal.ofText text ≠ .oversized digits) →
      (∃ error : EvalError, (error.kind = "MalformedForm" ∨ error.kind = "InvalidBindingForm") ∧
        ComesTo (fun levels => Call.perform levels (.eval code env)) heap (.error (.error error) heap)) ∧
      ∀ levels inner, Call.Run.Involves ⟨levels, .eval code env, heap⟩ inner →
        inner.call = .eval code env ∨ inner.call = .form keyword operands env) ∧
    (Form.Proper keyword operands → ∀ levels error after,
      Call.perform levels (.eval code env) heap = .error (.error error) after →
      ∃ e ∈ Form.parts keyword operands, ∃ inner : Call.Run,
        Call.Run.Involves ⟨levels, .eval code env, heap⟩ inner ∧ (∃ f, inner.call = .eval e f) ∧
        inner.result = .error (.error error) after) := by
  intro code
  refine ⟨fun improper readable => ?_, fun proper levels error after h => Call.exists_failing_part proper h⟩
  obtain ⟨error, fault⟩ := Option.ne_none_iff_exists'.mp fun faultless =>
    improper ((Form.fault?_eq_none_iff checked).mp faultless)
  refine ⟨⟨error.report heap, ?_, Call.comesTo_of_fault fault env heap⟩, fun levels inner involves =>
    Call.eq_of_involves_of_fault fault involves⟩
  have begin_readable : ∀ digits, Literal.ofText "begin" ≠ .oversized digits := fun digits => by
    rw [show Literal.ofText "begin" = .name from rfl]
    exact nofun
  let codes : CodeSet := .written (fun text => ∀ digits, Literal.ofText text ≠ .oversized digits) begin_readable
  have within : Shape.ErrorWithin codes error := Form.errorWithin_fault readable fault
  have kind : (error.report heap).kind = _ := error.kind_report ?_ fun found shown =>
    Value.describe_ok (within.found found shown).isUnwritable_eq_false heap
  · rw [kind]
    split
    · exact Or.inr rfl
    · exact Or.inl rfl
  · rintro digits rfl
    obtain ⟨text, mem, oversized⟩ := within.oversized digits rfl
    cases mem with
    | atom refused => exact refused digits oversized

/-- A binding list without a body, and a body that is not bound. -/
theorem malformed_forms_fail_first_let :
    Keyword.letForm ≠ .condForm ∧
    (∃ error : EvalError, (error.kind = "MalformedForm" ∨ error.kind = "InvalidBindingForm") ∧
      ComesTo (fun levels => Call.perform levels (.eval (Form.code .letForm [.list []]) 0)) .empty
        (.error (.error error) .empty)) ∧
    ∃ (error : EvalError) (after : Heap) (inner : Call.Run),
      Call.perform 3 (.eval (Form.code .letForm [.list [], .atom "x"]) 0) .empty = .error (.error error) after ∧
      (∃ f, inner.call = .eval (.atom "x") f) ∧ inner.result = .error (.error error) after := by
  have checked : Keyword.letForm ≠ .condForm := nofun
  have code (operands : List Value) := malformed_forms_fail_first checked operands .empty 0
  refine ⟨checked, ((code [.list []]).1 ?_ ?_).1, ?_⟩
  · intro proper
    cases (Form.fault?_eq_none_iff checked).mpr proper
  · exact fun e mem => List.mem_singleton.mp mem ▸ .list nofun
  · have proper : Form.Proper .letForm [.list [], .atom "x"] :=
      @Form.Proper.letTogether [] [.atom "x"] nofun List.nodup_nil (List.cons_ne_nil _ _)
    have unbound : Call.perform 3 (.eval (Form.code .letForm [.list [], .atom "x"]) 0) .empty =
        .error (.error (.unbound "x")) ⟨#[⟨some 0, []⟩], #[]⟩ := rfl
    obtain ⟨e, mem, inner, -, evaluates, result⟩ := (code _).2 proper 3 _ _ unbound
    cases List.mem_singleton.mp mem
    exact ⟨_, _, inner, unbound, evaluates, result⟩

end ScopedLisp
