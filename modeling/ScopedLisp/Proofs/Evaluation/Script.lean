import Mathlib.Tactic.Choose
import ScopedLisp.Proofs.Form.Parts
import ScopedLisp.Proofs.Heap.Growth

/-!
# ScopedLisp.Proofs.Evaluation.Script

Steps laid open.  A `Script` is a computation taken apart at its calls: it ends, or it makes a
call and goes on with the answer.  Every step is such a script, one lemma for each special form and
one for application; its own errors are those with which it ends by itself, and between its calls it
lets the heap grow (`Script.Grows`).

A step that fails with an error therefore fails by itself or because a call fails that it makes;
and in the second case whatever other failure that call had ended with would have been the failure of
the step (`Script.failure`).
-/

namespace ScopedLisp

open Evaluation

/-! ## Scripts -/

/-- A computation laid open: how it ends, or the call that it makes first and how it goes on with the
answer. -/
inductive Script (α : Type) where
  | done (result : EStateM.Result Failure Heap α)
  | ask (call : Call) (heap : Heap) (next : Value → Heap → Script α)

namespace Script

variable {α β : Type}

/-- Answer the calls of a script.  A failing answer ends it. -/
def run (call : Caller) : Script α → EStateM.Result Failure Heap α
  | .done result => result
  | .ask c heap next =>
    match call c heap with
    | .ok v after => (next v after).run call
    | .error failure after => .error failure after

/-- Where a script fails by itself, it is for want of depth or with an error among `own`. -/
def FailsBy (own : EvalError → Prop) : Script α → Prop
  | .done (.error (.error error) _) => own error
  | .done _ => True
  | .ask _ _ next => ∀ v heap, (next v heap).FailsBy own

/-- From a heap on, a script lets the heap grow, provided that its calls do and answer with values that
are no marks of unassigned names. -/
def Grows : Script α → Heap → Prop
  | .done (.ok _ after), heap | .done (.error _ after), heap => heap.Extends after
  | .ask _ start next, heap => heap.Extends start ∧
      ∀ v after, v ≠ .unassigned → start.Extends after → (next v after).Grows after

/-- Two scripts in a row. -/
def bind (next : α → Heap → Script β) : Script α → Script β
  | .done (.ok a heap) => next a heap
  | .done (.error failure heap) => .done (.error failure heap)
  | .ask c heap more => .ask c heap fun v after => (more v after).bind next

/-- To answer the calls of two scripts in a row is to answer those of the first, and then those of the second. -/
theorem run_bind (call : Caller) (script : Script α) (next : α → Heap → Script β) :
    (script.bind next).run call =
      match script.run call with
      | .ok a heap => (next a heap).run call
      | .error failure heap => .error failure heap := by
  induction script with
  | done result => cases result <;> rfl
  | ask c heap more ih =>
      simp only [bind, run]
      cases call c heap with
      | ok v after => exact ih v after
      | error failure after => rfl

/-- Two scripts in a row fail by themselves as one of them does. -/
theorem failsBy_bind {own : EvalError → Prop} {script : Script α} {next : α → Heap → Script β}
    (h : script.FailsBy own) (hnext : ∀ a heap, (next a heap).FailsBy own) :
    (script.bind next).FailsBy own := by
  induction script with
  | done result =>
      cases result with
      | ok a heap => exact hnext a heap
      | error failure heap => cases failure <;> exact h
  | ask c heap more ih => exact fun v after => ih v after (h v after)

/-- A script that lets a heap grow lets every heap grow that this one extends. -/
theorem Grows.of_extends {script : Script α} {before heap : Heap} (growth : before.Extends heap)
    (grows : script.Grows heap) : script.Grows before := by
  cases script with
  | done result => cases result <;> exact growth.trans grows
  | ask c start next => exact ⟨growth.trans grows.1, grows.2⟩

/-- Two scripts in a row let the heap grow, if each does from where it begins. -/
theorem grows_bind {script : Script α} {next : α → Heap → Script β} {heap : Heap}
    (grows : script.Grows heap) (hnext : ∀ a after, (next a after).Grows after) :
    (script.bind next).Grows heap := by
  induction script generalizing heap with
  | done result =>
      cases result with
      | ok a after => exact (hnext a after).of_extends grows
      | error failure after => exact grows
  | ask c start more ih =>
      exact ⟨grows.1, fun v after proper growth => ih v after (grows.2 v after proper growth)⟩

end Script

/-- Answer one call, if it is made in one heap, with a failure, and all others as before. -/
noncomputable def Caller.failingAt (call : Caller) (inner : Call) (start : Heap)
    (failure : Failure) (last : Heap) : Caller :=
  open Classical in
  fun c heap => if c = inner ∧ heap = start then .error failure last else call c heap

/-- A failing run of a script fails by itself, or a call fails that it makes; and then the failure of
that call, whatever it is, is the failure of the script. -/
theorem Script.failure {α : Type} {own : EvalError → Prop} {script : Script α}
    (h : script.FailsBy own) {call : Caller} {error : EvalError} {after : Heap}
    (hrun : script.run call = .error (.error error) after) :
    own error ∨ ∃ inner start, call inner start = .error (.error error) after ∧
      ∀ failure last,
        script.run (Caller.failingAt call inner start failure last) = .error failure last := by
  induction script with
  | done result =>
      left
      rw [Script.run] at hrun
      rw [hrun] at h
      exact h
  | ask c heap next ih =>
      rw [Script.run] at hrun
      cases hc : call c heap with
      | error failure' after' =>
          rw [hc] at hrun
          cases hrun
          refine Or.inr ⟨c, heap, hc, fun failure last => ?_⟩
          simp [Script.run, Caller.failingAt]
      | ok v mid =>
          rw [hc] at hrun
          refine (ih v mid (h v mid) hrun).imp_right ?_
          rintro ⟨inner, start, hinner, hfailing⟩
          refine ⟨inner, start, hinner, fun failure last => ?_⟩
          -- this call is answered as before, because it does not fail
          have other : ¬(c = inner ∧ heap = start) := by
            rintro ⟨rfl, rfl⟩
            rw [hc] at hinner
            cases hinner
          rw [Script.run, Caller.failingAt, if_neg other, hc]
          exact hfailing failure last

/-! ## Steps as scripts -/

/-- From a heap on, a computation that makes calls is a script; `own` are its own errors, and where it
has had `fair` answers it lets the heap grow. -/
def Scripted {α : Type} (own : EvalError → Prop) (fair : Prop) (heap : Heap)
    (x : Caller → Evaluation α) : Prop :=
  ∃ script : Script α, script.FailsBy own ∧ (fair → script.Grows heap) ∧
    ∀ call, x call heap = script.run call

namespace Scripted

variable {α β : Type} {own : EvalError → Prop} {fair : Prop} {heap : Heap}

/-- A computation without calls. -/
theorem alone {x : Evaluation α}
    (h : ∀ error after, x heap = .error (.error error) after → own error)
    (growth : fair → heap.Extends (heapAfter x heap)) : Scripted own fair heap fun _ => x := by
  refine ⟨.done (x heap), ?_, fun hfair => ?_, fun _ => rfl⟩
  · cases hx : x heap with
    | ok a after => trivial
    | error failure after =>
        cases failure with
        | error error => exact h error after hx
        | outOfDepth => trivial
  · have growth := growth hfair
    rw [heapAfter] at growth
    cases hx : x heap with
    | ok a after =>
        rw [hx] at growth
        exact growth
    | error failure after =>
        rw [hx] at growth
        exact growth

theorem pure (a : α) : Scripted own fair heap fun _ => (Pure.pure a : Evaluation α) :=
  alone nofun fun _ => .refl heap

theorem fail {error : EvalError} (h : own error) :
    Scripted own fair heap fun _ => (fail error : Evaluation α) :=
  alone (by rintro _ _ ⟨⟩; exact h) fun _ => .refl heap

/-- A look at the heap for something that may be missing is a script, its error the one of the look. -/
theorem query {f : Heap → Except EvalError α} (h : ∀ error, f heap = .error error → own error) :
    Scripted own fair heap fun _ => query f := by
  cases hf : f heap with
  | ok a =>
      have answers : Evaluation.query f heap = .ok a heap := by simp only [Evaluation.query, hf]
      refine alone (fun error after eq => ?_) fun _ => ?_
      · rw [answers] at eq
        cases eq
      · rw [heapAfter, answers]
        exact .refl heap
  | error found =>
      have fails : Evaluation.query f heap = .error (.error found) heap := by
        simp only [Evaluation.query, hf]
      refine alone (fun error after eq => ?_) fun _ => ?_
      · rw [fails] at eq
        cases eq
        exact h found hf
      · rw [heapAfter, fails]
        exact .refl heap

/-- A call is a script that asks once and ends with the answer. -/
theorem call (c : Call) : Scripted own fair heap fun call => call c := by
  refine ⟨.ask c heap fun v after => .done (.ok v after), fun _ _ => trivial, fun _ => ?_,
    fun call => ?_⟩
  · exact ⟨.refl heap, fun _ after _ _ => .refl after⟩
  · simp only [Script.run]
    cases call c heap <;> rfl

/-- A call, and what follows with its answer. -/
theorem ask (c : Call) {next : Caller → Value → Evaluation α}
    (hnext : ∀ v after, Scripted own (fair ∧ v ≠ .unassigned) after fun call => next call v) :
    Scripted own fair heap fun call => call c >>= next call := by
  choose more hmore grows hrun using hnext
  refine ⟨.ask c heap more, hmore, fun hfair => ?_, fun call => ?_⟩
  · exact ⟨.refl heap, fun v after proper _ => grows v after ⟨hfair, proper⟩⟩
  · simp only [Script.run, Bind.bind, EStateM.bind]
    cases call c heap with
    | ok v after => exact hrun v after call
    | error failure after => rfl

/-- Two computations in a row are a script, if the second is one after every end of the first. -/
theorem bind {x : Caller → Evaluation α} {next : Caller → α → Evaluation β}
    (hx : Scripted own fair heap x)
    (hnext : ∀ a after, Scripted own fair after fun call => next call a) :
    Scripted own fair heap fun call => x call >>= next call := by
  obtain ⟨script, hscript, grows, hrun⟩ := hx
  choose more hmore hmoreGrows hmoreRun using hnext
  refine ⟨script.bind more, Script.failsBy_bind hscript hmore,
    fun hfair => Script.grows_bind (grows hfair) fun a after => hmoreGrows a after hfair,
    fun call => ?_⟩
  rw [Script.run_bind, ← hrun]
  simp only [Bind.bind, EStateM.bind]
  cases x call heap with
  | ok a after => exact hmoreRun a after call
  | error failure after => rfl

/-- To evaluate a row of expressions is a script of one call for each. -/
theorem evalEach {eval : Caller → Value → Evaluation Value}
    (heval : ∀ e after, Scripted own fair after fun call => eval call e) (es : List Value) :
    Scripted own fair heap fun call => Evaluation.evalEach (eval call) es := by
  induction es generalizing heap with
  | nil => exact pure []
  | cons e es ih =>
      refine bind (heval e heap) fun v mid => ?_
      exact bind ih fun vs after => pure (v :: vs)

/-- To evaluate a row of expressions for the last value is a script of one call for each. -/
theorem evalLast {eval : Caller → Value → Evaluation Value}
    (heval : ∀ e after, Scripted own fair after fun call => eval call e) (es : List Value) :
    Scripted own fair heap fun call => Evaluation.evalLast (eval call) es := by
  induction es generalizing heap with
  | nil => exact pure _
  | cons e es ih =>
      cases es with
      | nil => exact heval e heap
      | cons e' es => exact bind (heval e heap) fun _ _ => ih

/-- What a computation does in one heap may be known in other words. -/
theorem congr {x y : Caller → Evaluation α} (hx : Scripted own fair heap x)
    (eq : ∀ call, y call heap = x call heap) : Scripted own fair heap y := by
  obtain ⟨script, hscript, grows, hrun⟩ := hx
  exact ⟨script, hscript, grows, fun call => (eq call).trans (hrun call)⟩

theorem outOfDepth : Scripted own fair heap fun _ => (outOfDepth : Evaluation α) :=
  alone nofun fun _ => .refl heap

theorem view (f : Heap → α) : Scripted own fair heap fun _ => view f :=
  alone nofun fun _ => .refl heap

theorem newFrame (parent : FrameId) (slots : List (String × Value)) :
    Scripted own fair heap fun _ => newFrame parent slots :=
  alone nofun fun _ => Heap.extends_newFrame heap (some parent) slots

theorem newClosure (c : Closure) : Scripted own fair heap fun _ => newClosure c :=
  alone nofun fun _ => Heap.extends_newClosure heap c

/-- A new closure, and what follows with it. -/
theorem bindClosure (c : Closure) {next : Caller → Value → Evaluation α}
    (hnext : ∀ id after, Scripted own fair after fun call => next call (.procedure id)) :
    Scripted own fair heap fun call => Evaluation.newClosure c >>= next call := by
  obtain ⟨script, hscript, grows, hrun⟩ := hnext _ (heap.newProcedure (.closure c)).2
  refine ⟨script, hscript, fun hfair => ?_, hrun⟩
  exact (grows hfair).of_extends (Heap.extends_newClosure heap c)

/-- A write is a script, and lets the heap grow unless it marks a name as unassigned. -/
theorem write (f : FrameId) (name : String) {v : Value} (proper : fair → v ≠ .unassigned) :
    Scripted own fair heap fun _ => write f name v :=
  alone nofun fun hfair => Heap.extends_write heap f name (proper hfair)

theorem nameClosure (v : Value) (name : String) :
    Scripted own fair heap fun _ => nameClosure v name := by
  cases v with
  | procedure id => exact alone nofun fun _ => Heap.extends_nameClosure heap id name
  | _ => exact alone nofun fun _ => .refl heap

/-- A value that does not fit is shown; if it cannot be, that is the error. -/
theorem failShowing {text : Heap → Except EvalError String} {error : String → EvalError}
    (shown : ∀ s, own (error s)) (unshown : ∀ e, text heap = .error e → own e) :
    Scripted own fair heap fun _ => (failShowing text error : Evaluation α) := by
  refine query fun e h => ?_
  cases ht : text heap with
  | ok s =>
      rw [ht] at h
      cases h
      exact shown s
  | error e' =>
      rw [ht] at h
      cases h
      exact unshown _ ht

/-! ### Special forms -/

variable {codes : CodeSet} {env : FrameId} {operands : List Value}

section Forms

variable (language : ∀ error : EvalError, error.isOfLanguage = true → own error)
variable (blame : ∀ error, Shape.ErrorWithin codes error → ∀ heap, own (error.report heap))
variable (code : ∀ e ∈ operands, codes.mem e) (remaining : Nat)

include blame in
omit code in
/-- A check of a shape fails by itself with errors of the language alone, or where its code cannot be quoted. -/
theorem shaped {wanted : α → Prop} {parts : Shape.Checked α}
    (h : Shape.Within codes wanted parts) :
    Scripted own fair heap fun _ => shaped remaining parts := by
  cases parts with
  | ok a => exact pure a
  | error shapeError =>
      simp only [Evaluation.shaped]
      split
      · exact outOfDepth
      · refine query fun error eq => ?_
        cases eq
        exact blame shapeError h heap

include blame code in
/-- An `if` asks for its test and for one branch. -/
theorem runIf : Scripted own fair heap fun call => Form.runIf remaining call operands env := by
  refine bind (shaped blame remaining (Shape.within_conditional code))
    fun ⟨test, positive, negative⟩ mid => ?_
  refine bind (call (.eval test env)) fun v after => ?_
  split
  · exact call _
  · cases negative with
    | some e => exact call _
    | none => exact pure _

include blame code in
/-- A `define` asks for its value, if it is no procedure, and writes it. -/
theorem runDefine :
    Scripted own fair heap fun call => Form.runDefine remaining call operands env := by
  refine bind (shaped blame remaining (Shape.within_definition code)) fun definition mid => ?_
  cases definition with
  | procedure name formals body =>
      refine bindClosure _ fun id after => ?_
      exact bind (write env name fun _ => nofun) fun _ _ => pure _
  | value name expr =>
      refine ask (.eval expr env) fun v after => ?_
      have finish : ∀ heap, Scripted own (fair ∧ v ≠ .unassigned) heap fun _ =>
          (Evaluation.write env name v >>= fun _ => Pure.pure Value.nil : Evaluation Value) :=
        fun heap => bind (write env name And.right) fun _ _ => pure _
      split
      · exact bind (nameClosure v name) fun _ named => finish named
      · exact finish after

include blame code in
/-- A `lambda` asks for nothing. -/
theorem runLambda : Scripted own fair heap fun _ => Form.runLambda remaining operands env := by
  refine bind (shaped blame remaining (Shape.within_lambda code)) fun ⟨formals, body⟩ mid => ?_
  exact newClosure _

include language in
omit code in
/-- A `begin` asks for its expressions in turn, and fails by itself if it has none. -/
theorem runBegin : Scripted own fair heap fun call => Form.runBegin call operands env := by
  unfold Form.runBegin
  split
  · exact fail (language _ rfl)
  · exact evalLast (fun e _ => call (.eval e env)) operands

omit code in
/-- An `and` asks for its operands up to the first false one. -/
theorem runAnd (es : List Value) : Scripted own fair heap fun call => Form.runAnd call env es := by
  induction es generalizing heap with
  | nil => exact pure _
  | cons e es ih =>
      cases es with
      | nil => exact call (.eval e env)
      | cons e' es =>
          refine bind (call (.eval e env)) fun v after => ?_
          split
          · exact ih
          · exact pure _

omit code in
/-- An `or` asks for its operands up to the first true one. -/
theorem runOr (es : List Value) : Scripted own fair heap fun call => Form.runOr call env es := by
  induction es generalizing heap with
  | nil => exact pure _
  | cons e es ih =>
      refine bind (call (.eval e env)) fun v after => ?_
      split
      · exact pure v
      · exact ih

include language blame code in
/-- A `cond` asks for tests up to the first that holds, and for the body of its clause. -/
theorem runCond : Scripted own fair heap fun call => Form.runCond remaining call env operands := by
  induction operands generalizing heap with
  | nil => exact pure _
  | cons clause rest ih =>
      obtain ⟨code_clause, code_rest⟩ := List.forall_mem_cons.mp code
      unfold Form.runCond
      split
      · exact pure _
      next test body rest eq =>
        cases eq
        split
        · split
          · exact fail (language _ rfl)
          split
          · exact fail (language _ rfl)
          · exact evalLast (fun e _ => call (.eval e env)) body
        · refine bind (call (.eval test env)) fun v after => ?_
          split
          · exact ih code_rest
          split
          · exact pure v
          · exact evalLast (fun e _ => call (.eval e env)) body
      next eq =>
        cases eq
        have refused : Shape.Within codes (fun _ : Value => False) (.error (.condClause clause)) :=
          Shape.errorWithin_found rfl code_clause
        exact shaped blame remaining refused

include blame code in
/-- A `let` asks for its values, makes a frame and asks for its body. -/
theorem runLet : Scripted own fair heap fun call => Form.runLet remaining call operands env := by
  refine bind (shaped blame remaining (Shape.within_letParts "let" false code))
    fun ⟨bindings, body⟩ mid => ?_
  refine bind (evalEach (fun e _ => call (.nested (.eval e env))) _) fun values after => ?_
  exact bind (newFrame env _) fun frame inner => call (.eval body frame)

omit code in
/-- To bind in order is to ask for each value and to write it before the next. -/
theorem bindInOrder (frame : FrameId) (bindings : List (String × Value)) :
    Scripted own fair heap fun call => Form.bindInOrder call frame bindings := by
  induction bindings generalizing heap fair with
  | nil => exact pure ()
  | cons binding rest ih =>
      refine ask (.eval binding.2 frame) fun v after => ?_
      exact bind (write frame binding.1 And.right) fun _ _ => ih

include blame code in
/-- A `let*` makes a frame, binds in it and asks for its body there. -/
theorem runLetStar :
    Scripted own fair heap fun call => Form.runLetStar remaining call operands env := by
  refine bind (shaped blame remaining (Shape.within_letParts "let*" true code))
    fun ⟨bindings, body⟩ mid => ?_
  refine bind (newFrame env []) fun frame inner => ?_
  exact bind (bindInOrder frame bindings) fun _ _ => call (.eval body frame)

omit code in
/-- To assign in order is to ask for each value, to name it if it waits for a name, and to write it. -/
theorem assignInOrder (frame : FrameId) (bindings : List (String × Value)) :
    Scripted own fair heap fun call => Form.assignInOrder call frame bindings := by
  induction bindings generalizing heap fair with
  | nil => exact pure ()
  | cons binding rest ih =>
      refine ask (.eval binding.2 frame) fun v after => ?_
      have finish : ∀ heap, Scripted own (fair ∧ v ≠ .unassigned) heap fun call => (do
          Evaluation.write frame binding.1 v
          Form.assignInOrder call frame rest) :=
        fun heap => bind (write frame binding.1 And.right) fun _ _ => ih
      refine bind (view fun heap => Form.isFresh heap frame v) fun fresh seen => ?_
      split
      · exact bind (nameClosure v binding.1) fun _ named => finish named
      · exact finish seen

include blame code in
/-- A `letrec` makes a frame of unassigned names, assigns them and asks for its body. -/
theorem runLetrec :
    Scripted own fair heap fun call => Form.runLetrec remaining call operands env := by
  refine bind (shaped blame remaining (Shape.within_letParts "letrec" false code))
    fun ⟨bindings, body⟩ mid => ?_
  refine bind (newFrame env _) fun frame inner => ?_
  exact bind (assignInOrder frame bindings) fun _ _ => call (.eval body frame)

include language blame code in
/-- Every special form is a script whose own errors are of the language. -/
theorem form (keyword : Keyword) :
    Scripted own fair heap fun call => Form.run remaining call keyword operands env := by
  cases keyword with
  | ifForm => exact runIf blame code remaining
  | defineForm => exact runDefine blame code remaining
  | lambdaForm => exact runLambda blame code remaining
  | beginForm => exact runBegin language
  | letForm => exact runLet blame code remaining
  | letStarForm => exact runLetStar blame code remaining
  | letrecForm => exact runLetrec blame code remaining
  | andForm => exact runAnd operands
  | orForm => exact runOr operands
  | condForm => exact runCond language blame code remaining

end Forms

/-! ### Evaluation and application -/

variable (language : ∀ error : EvalError, error.isOfLanguage = true → own error)

include language

/-- A list asks for a form, or for its head and its operands and then for an application. -/
theorem evalItems (items : List Value) :
    Scripted own fair heap fun call => Call.evalItems call items env := by
  cases items with
  | nil => exact fail (language _ rfl)
  | cons head operands =>
      simp only [Call.evalItems]
      cases Keyword.ofHead? head with
      | some keyword => exact call _
      | none =>
          refine bind (call (.eval head env)) fun procedure mid => ?_
          refine bind (evalEach (fun e _ => call (.nested (.eval e env))) operands)
            fun args after => ?_
          exact call (.apply procedure args env)

/-- Looking up fails with an error of the language. -/
theorem lookup (name : String) :
    Scripted own fair heap fun _ => Evaluation.query (·.lookup env name) := by
  refine query fun error h => language error ?_
  unfold Heap.lookup at h
  split at h <;> cases h <;> rfl

/-- Of the atoms, only an integer of too many digits is refused. -/
theorem evalAtom {text : String}
    (refused : ∀ digits, Literal.ofText text = .oversized digits → own (.oversizedLiteral digits)) :
    Scripted own fair heap fun _ => Call.evalAtom text env := by
  simp only [Call.evalAtom]
  cases h : Literal.ofText text with
  | oversized digits => exact fail (refused digits h)
  | name => exact lookup language text
  | _ => exact pure _

/-- To apply a closure fails by itself for a wrong number of arguments, or makes a frame and asks for the body. -/
theorem enter (c : Closure) (args : List Value) :
    Scripted own fair heap fun call => Call.enter call c args := by
  unfold Call.enter
  split
  · exact bind (newFrame c.env _) fun frame inner => call (.nested (.eval c.body frame))
  · exact fail (language _ rfl)

/-- Procedures of a host apart, what is applied fails for a wrong number of arguments, for arguments
that the primitive refuses, or because it cannot be applied. -/
theorem applyProcedure {procedure : Value} {args : List Value}
    (hostless : ∀ name respond, heap.procedure? procedure ≠ some (.host name respond))
    (primitive : ∀ p error, Primitive.apply heap p args = .error error → own error)
    (unshown : ∀ error, procedure.display? heap = .error error → own error) :
    Scripted own fair heap fun call => Call.applyProcedure call procedure args env := by
  cases hp : heap.procedure? procedure with
  | none =>
      have fails : Scripted own fair heap fun _ =>
          (Evaluation.failShowing procedure.display? .notApplicable : Evaluation Value) :=
        failShowing (fun s => language (.notApplicable s) rfl) unshown
      refine congr fails fun call => ?_
      simp only [Call.applyProcedure, Bind.bind, EStateM.bind, Evaluation.view, hp]
  | some found =>
      cases found with
      | closure c =>
          refine congr (enter language c args) fun call => ?_
          simp only [Call.applyProcedure, Bind.bind, EStateM.bind, Evaluation.view, hp]
      | primitive name p =>
          have asks : Scripted own fair heap fun _ => Evaluation.query (p.apply · args) :=
            query (primitive p)
          refine congr asks fun call => ?_
          simp only [Call.applyProcedure, Bind.bind, EStateM.bind, Evaluation.view, hp]
      | host name respond => exact absurd hp (hostless name respond)

end Scripted

end ScopedLisp
