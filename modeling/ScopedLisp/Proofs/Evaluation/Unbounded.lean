import ScopedLisp.Proofs.Evaluation.Depth
import ScopedLisp.Proofs.Form.Code

/-!
# ScopedLisp.Proofs.Evaluation.Unbounded

Evaluation away from the limit on nested calls.  A computation that may use more and more levels *comes
to* a result if it has this result with enough levels, whatever their number (`ComesTo`); otherwise it
runs out of depth with any number of them.

`Call.unbounded` is evaluation with as many levels as it takes.  It is no program, but it can be
calculated with: what a call does without a limit is what its step does with calls that have none.  One
lemma for each kind of call, and for each form, says so; they rest on `Tends`, which says that a
computation with more and more levels approaches one without a limit, and which goes through everything
that a step is made of.
-/

namespace ScopedLisp

namespace Evaluation

variable {α β : Type}

/-- A result that is a value or an error of the program. -/
def Settled (result : EStateM.Result Failure Heap α) : Prop :=
  ∀ heap, result ≠ .error .outOfDepth heap

/-- With enough levels a run has this result: a value, or an error of the program. -/
def ComesTo (run : Nat → Evaluation α) (heap : Heap) (result : EStateM.Result Failure Heap α) : Prop :=
  Settled result ∧ ∃ enough, ∀ levels ≥ enough, run levels heap = result

/-- A run with more and more levels approaches a computation without a limit: all results but that of
having run out of depth are final, and the limit is reached wherever there is one. -/
structure Tends (run : Nat → Evaluation α) (limit : Evaluation α) : Prop where
  agrees {levels : Nat} {heap : Heap} : Settled (run levels heap) → run levels heap = limit heap
  reached {heap : Heap} : Settled (limit heap) → ∃ enough, ∀ levels ≥ enough, run levels heap = limit heap
  stuck {heap after : Heap} : limit heap = .error .outOfDepth after → after = .empty

theorem settled_ok (a : α) (heap : Heap) : Settled (.ok a heap : EStateM.Result Failure Heap α) := nofun

theorem settled_error (error : EvalError) (heap : Heap) :
    Settled (.error (.error error) heap : EStateM.Result Failure Heap α) := nofun

/-- A result is a value or an error of the program, or the depth ran out. -/
theorem settled_or (result : EStateM.Result Failure Heap α) :
    Settled result ∨ ∃ heap, result = .error .outOfDepth heap := by
  rcases result with ⟨a, heap⟩ | ⟨error | _, heap⟩
  · exact Or.inl (settled_ok a heap)
  · exact Or.inl (settled_error error heap)
  · exact Or.inr ⟨heap, rfl⟩

namespace Tends

variable {run run' : Nat → Evaluation α} {limit limit' : Evaluation α}

/-- What a run comes to is what its limit is. -/
theorem comesTo_iff (tends : Tends run limit) {heap : Heap} {result : EStateM.Result Failure Heap α} :
    ComesTo run heap result ↔ limit heap = result ∧ Settled result := by
  constructor
  · rintro ⟨settled, enough, ran⟩
    have ran := ran enough (Nat.le_refl enough)
    rw [← ran] at settled ⊢
    exact ⟨(tends.agrees settled).symm, settled⟩
  · rintro ⟨rfl, settled⟩
    exact ⟨settled, tends.reached settled⟩

/-- There is one limit at most. -/
theorem unique (tends : Tends run limit) (tends' : Tends run limit') : limit = limit' := by
  funext heap
  rcases settled_or (limit heap) with settled | ⟨after, out⟩
  · exact ((tends'.comesTo_iff.mp (tends.comesTo_iff.mpr ⟨rfl, settled⟩)).1).symm
  · rcases settled_or (limit' heap) with settled | ⟨after', out'⟩
    · exact (tends.comesTo_iff.mp (tends'.comesTo_iff.mpr ⟨rfl, settled⟩)).1
    · rw [out, out', tends.stuck out, tends'.stuck out']

/-- The first levels do not matter. -/
theorem tail (tends : Tends run limit) : Tends (fun levels => run (levels + 1)) limit where
  agrees := tends.agrees
  reached settled := by
    obtain ⟨enough, ran⟩ := tends.reached settled
    exact ⟨enough, fun levels le => ran (levels + 1) (Nat.le_succ_of_le le)⟩
  stuck := tends.stuck

/-! ### Computations that take no levels -/

/-- What takes no levels is its own limit. -/
theorem const {x : Evaluation α} (settled : ∀ heap, Settled (x heap)) : Tends (fun _ => x) x where
  agrees _ := rfl
  reached _ := ⟨0, fun _ _ => rfl⟩
  stuck {heap after} out := absurd out (settled heap after)

/-- To answer takes no levels. -/
protected theorem pure (a : α) : Tends (fun _ => pure a) (pure a) := const fun _ => nofun

/-- To fail takes no levels. -/
protected theorem fail (error : EvalError) : Tends (fun _ => fail (α := α) error) (fail error) :=
  const fun _ => nofun

protected theorem view (f : Heap → α) : Tends (fun _ => view f) (view f) := const fun _ => nofun

/-- To ask the heap takes no levels. -/
protected theorem query (f : Heap → Except EvalError α) : Tends (fun _ => query f) (query f) :=
  const fun heap after out => by
    simp only [query] at out
    split at out <;> cases out

/-- To fail with a text takes no levels of its own. -/
protected theorem failShowing (text : Heap → Except EvalError String) (error : String → EvalError) :
    Tends (fun _ => failShowing (α := α) text error) (failShowing text error) :=
  .query _

protected theorem newFrame (parent : FrameId) (slots : List (String × Value)) :
    Tends (fun _ => newFrame parent slots) (newFrame parent slots) :=
  const fun _ => nofun

protected theorem newClosure (c : Closure) : Tends (fun _ => newClosure c) (newClosure c) :=
  const fun _ => nofun

protected theorem write (f : FrameId) (name : String) (v : Value) :
    Tends (fun _ => write f name v) (write f name v) :=
  const fun _ => nofun

/-- To name a closure takes no levels. -/
protected theorem nameClosure (v : Value) (name : String) :
    Tends (fun _ => nameClosure v name) (nameClosure v name) :=
  const fun heap after out => by cases v <;> cases out

/-! ### Computations in a row -/

/-- Computations in a row approach their limits in a row. -/
theorem bind {next : Nat → α → Evaluation β} {next' : α → Evaluation β} (tends : Tends run limit)
    (tends' : ∀ a, Tends (fun levels => next levels a) (next' a)) :
    Tends (fun levels => run levels >>= next levels) (limit >>= next') where
  agrees {levels heap} settled := by
    have first : Settled (run levels heap) := fun after out => settled after (bind_of_error out _)
    simp only [Bind.bind, EStateM.bind, tends.agrees first] at settled ⊢
    generalize limit heap = result at settled ⊢
    cases result with
    | ok a after => exact (tends' a).agrees settled
    | error failure after => rfl
  reached {heap} settled := by
    have first : Settled (limit heap) := fun after out => settled after (bind_of_error out _)
    obtain ⟨enough, ran⟩ := tends.reached first
    simp only [Bind.bind, EStateM.bind] at settled ⊢
    generalize limit heap = result at settled ran
    cases result with
    | ok a after =>
        obtain ⟨enough', ran'⟩ := (tends' a).reached settled
        refine ⟨max enough enough', fun levels le => ?_⟩
        rw [ran levels (Nat.le_trans (Nat.le_max_left _ _) le)]
        exact ran' levels (Nat.le_trans (Nat.le_max_right _ _) le)
    | error failure after => exact ⟨enough, fun levels le => by rw [ran levels le]⟩
  stuck {heap after} out := by
    cases first : limit heap with
    | ok a after' => exact (tends' a).stuck ((bind_of_ok first _).symm.trans out)
    | error failure after' =>
        have same := (bind_of_error first _).symm.trans out
        cases same
        exact tends.stuck first

/-- What is evaluated in turn approaches its limits in turn. -/
theorem evalEach {eval : Nat → Value → Evaluation Value} {eval' : Value → Evaluation Value}
    (tends : ∀ e, Tends (fun levels => eval levels e) (eval' e)) (es : List Value) :
    Tends (fun levels => evalEach (eval levels) es) (evalEach eval' es) := by
  induction es with
  | nil => exact .pure []
  | cons e es ih => exact (tends e).bind fun v => ih.bind fun vs => .pure (v :: vs)

/-- What is evaluated in turn for its last value approaches its limits in turn. -/
theorem evalLast {eval : Nat → Value → Evaluation Value} {eval' : Value → Evaluation Value}
    (tends : ∀ e, Tends (fun levels => eval levels e) (eval' e)) (es : List Value) :
    Tends (fun levels => evalLast (eval levels) es) (evalLast eval' es) := by
  induction es with
  | nil => exact .pure Value.nil
  | cons e es ih =>
      cases es with
      | nil => exact tends e
      | cons _ _ => exact (tends e).bind fun _ => ih

end Tends

/-- The parts of a checked shape, or the error of the shape, with as many levels as it takes to write the
offending code. -/
def checked : Shape.Checked α → Evaluation α
  | .ok parts => pure parts
  | .error error => query fun heap => .error (error.report heap)

/-- The parts of a checked shape, or the error with the offending code in it, wait for as many levels as the code
is deep. -/
theorem Tends.shaped (parts : Shape.Checked α) :
    Tends (fun levels => shaped levels parts) (checked parts) := by
  cases parts with
  | ok parts => exact .pure parts
  | error error =>
      exact {
        agrees := fun {levels heap} settled => by
          simp only [Evaluation.shaped] at settled ⊢
          split at settled
          · exact absurd rfl (settled heap)
          next enough => rw [if_neg enough]; rfl
        reached := fun {heap} _ => by
          refine ⟨(error.found?.map Value.sourceLevels).getD 0, fun levels le => ?_⟩
          simp only [Evaluation.shaped]
          rw [if_neg (Nat.not_lt.mpr le)]
          rfl
        stuck := fun {heap after} out => by cases out }

end Evaluation

open Evaluation

namespace Call

/-! ## Calls without a limit -/

/-- A result that is not for want of depth is the same with more levels. -/
theorem perform_of_le {levels levels' : Nat} (le : levels ≤ levels') {call : Call} {heap : Heap}
    (settled : Settled (perform levels call heap)) :
    perform levels' call heap = perform levels call heap := by
  obtain ⟨extra, rfl⟩ := Nat.exists_eq_add_of_le le
  rw [← performBeyond_perform]
  exact performBeyond_eq settled _ extra

open scoped Classical in
/-- Perform a call with as many levels as it takes. -/
noncomputable def unbounded : Caller := fun call heap =>
  if h : ∃ levels, Settled (perform levels call heap) then perform h.choose call heap
  else .error .outOfDepth .empty

/-- A call that does not run out of depth does the same without a limit. -/
theorem unbounded_of_settled {levels : Nat} {call : Call} {heap : Heap}
    (settled : Settled (perform levels call heap)) :
    unbounded call heap = perform levels call heap := by
  have some : ∃ levels, Settled (perform levels call heap) := ⟨levels, settled⟩
  have chosen : unbounded call heap = perform some.choose call heap := dif_pos some
  rw [chosen]
  rcases Nat.le_total levels some.choose with le | le
  · exact perform_of_le le settled
  · exact (perform_of_le le some.choose_spec).symm

/-- **The limit of evaluation** with more and more levels. -/
theorem tends (call : Call) : Tends (fun levels => perform levels call) (unbounded call) where
  agrees settled := (unbounded_of_settled settled).symm
  reached {heap} settled := by
    by_cases some : ∃ levels, Settled (perform levels call heap)
    · obtain ⟨enough, ran⟩ := some
      refine ⟨enough, fun levels le => ?_⟩
      rw [unbounded_of_settled ran]
      exact perform_of_le le ran
    · exact absurd (dif_neg some) (settled .empty)
  stuck {heap after} out := by
    by_cases some : ∃ levels, Settled (perform levels call heap)
    · obtain ⟨enough, ran⟩ := some
      rw [unbounded_of_settled ran] at out
      exact absurd out (ran after)
    · have none : unbounded call heap = .error .outOfDepth .empty := dif_neg some
      rw [none] at out
      cases out
      rfl

/-- What a call comes to with enough levels. -/
theorem comesTo_iff {call : Call} {heap : Heap} {result : EStateM.Result Failure Heap Value} :
    ComesTo (fun levels => perform levels call) heap result ↔
      unbounded call heap = result ∧ Settled result :=
  (tends call).comesTo_iff

/-- What a call comes to with some number of levels is what it comes to with enough of them. -/
theorem comesTo_of_perform (levels : Nat) {call : Call} {heap : Heap}
    {result : EStateM.Result Failure Heap Value} (ran : perform levels call heap = result)
    (settled : Settled result) : ComesTo (fun levels => perform levels call) heap result :=
  ⟨settled, levels, fun _ le => ran ▸ perform_of_le le (ran ▸ settled)⟩

/-- A call without a limit does what its step approaches. -/
theorem unbounded_eq {call : Call} {limit : Evaluation Value}
    (tends : Tends (fun levels => step levels (perform levels) call) limit) : unbounded call = limit :=
  (Call.tends call).tail.unique tends

/-! ### Evaluation and application -/

/-- A call from inside another takes a level more, which is nothing where there is no limit. -/
theorem unbounded_nested (call : Call) : unbounded (.nested call) = unbounded call :=
  unbounded_eq (tends call)

/-- An operator with its operands, as evaluated with more and more levels. -/
theorem tends_evalItems (items : List Value) (env : FrameId) :
    Tends (fun levels => evalItems (perform levels) items env) (evalItems unbounded items env) := by
  cases items with
  | nil => exact .fail _
  | cons head operands =>
      simp only [evalItems]
      split
      · exact tends _
      · refine (tends _).bind fun procedure => ?_
        exact (Tends.evalEach (fun e => tends _) operands).bind fun args => tends _

/-- An atom takes no levels. -/
theorem tends_evalAtom (text : String) (env : FrameId) :
    Tends (fun _ => evalAtom text env) (evalAtom text env) := by
  simp only [evalAtom]
  split
  · exact .pure _
  · exact .pure _
  · exact .pure _
  · exact .fail _
  · exact .query _

/-- Evaluation without a limit goes by the code: an atom, a list, or what is not to be evaluated. -/
theorem unbounded_eval (code : Value) (env : FrameId) :
    unbounded (.eval code env) = evalCode unbounded code env := by
  refine unbounded_eq ?_
  cases code with
  | atom text => exact tends_evalAtom text env
  | list items => exact tends_evalItems items env
  | array items => exact tends_evalItems items env
  | _ =>
      simp only [step, evalCode]
      exact .failShowing _ _

/-- A closure is entered with more and more levels as without a limit. -/
theorem tends_enter (closure : Closure) (args : List Value) :
    Tends (fun levels => enter (perform levels) closure args) (enter unbounded closure args) := by
  simp only [enter]
  split
  · exact (Tends.newFrame _ _).bind fun frame => tends _
  · exact .fail _

/-- A request of the host is answered with more and more levels as without a limit. -/
theorem tends_answer (env : FrameId) (request : HostRequest) :
    Tends (fun levels => answer (perform levels) env request) (answer unbounded env request) := by
  cases request with
  | answer value => exact .pure value
  | fail error => exact .fail error
  | lookup name => exact .query _
  | define name value => exact (Tends.write env name value).bind fun _ => .pure Value.nil
  | depth => exact .view _
  | apply procedure args => exact tends _

/-- Application without a limit goes by the procedure: a closure, a primitive, one of the host, or none. -/
theorem unbounded_apply (procedure : Value) (args : List Value) (env : FrameId) :
    unbounded (.apply procedure args env) = applyProcedure unbounded procedure args env := by
  refine unbounded_eq ((Tends.view (·.procedure? procedure)).bind fun found => ?_)
  rcases found with _ | closure | ⟨_, primitive⟩ | ⟨_, respond⟩
  · exact .failShowing _ _
  · exact tends_enter closure args
  · exact .query _
  · exact tends_answer env _

/-! ### Forms -/

/-- To evaluate a form is to run it. -/
theorem unbounded_code (keyword : Keyword) (operands : List Value) (env : FrameId) :
    unbounded (.eval (Form.code keyword operands) env) = unbounded (.form keyword operands env) := by
  have found : Keyword.ofHead? (.atom keyword.name) = some keyword := Keyword.ofName?_name keyword
  rw [unbounded_eval, Form.code, evalCode, evalItems, found]

/-- The bindings of `let*` are made with more and more levels as without a limit. -/
theorem tends_bindInOrder (frame : FrameId) (bindings : List (String × Value)) :
    Tends (fun levels => Form.bindInOrder (perform levels) frame bindings)
      (Form.bindInOrder unbounded frame bindings) := by
  induction bindings with
  | nil => exact .pure ()
  | cons binding bindings ih =>
      exact (tends _).bind fun value => (Tends.write _ _ _).bind fun _ => ih

/-- The bindings of `letrec` are assigned with more and more levels as without a limit. -/
theorem tends_assignInOrder (frame : FrameId) (bindings : List (String × Value)) :
    Tends (fun levels => Form.assignInOrder (perform levels) frame bindings)
      (Form.assignInOrder unbounded frame bindings) := by
  induction bindings with
  | nil => exact .pure ()
  | cons binding bindings ih =>
      refine (tends _).bind fun value => (Tends.view (Form.isFresh · frame value)).bind fun fresh => ?_
      have rest := (Tends.write frame binding.1 value).bind fun _ => ih
      cases fresh with
      | true => exact (Tends.nameClosure _ _).bind fun _ => rest
      | false => exact rest

variable (operands : List Value) (env : FrameId)

/-- `begin` without a limit: the forms in turn, and the value of the last. -/
theorem unbounded_begin :
    unbounded (.form .beginForm operands env) = Form.runBegin unbounded operands env := by
  refine unbounded_eq ?_
  simp only [step, Form.run, Form.runBegin]
  split
  · exact .fail _
  · exact .evalLast (fun e => tends _) operands

/-- Several forms as one are evaluated one after the other. -/
theorem unbounded_sequence {forms : List Value} (nonempty : forms ≠ []) (env : FrameId) :
    unbounded (.eval (Form.sequence forms) env) =
      evalLast (fun e => unbounded (.eval e env)) forms := by
  rcases forms with _ | ⟨e, _ | ⟨e', es⟩⟩
  · exact absurd rfl nonempty
  · rfl
  · exact (unbounded_code .beginForm _ env).trans (unbounded_begin _ env)

/-- `lambda` without a limit: a closure of the parameters and the body in the frame, not named. -/
theorem unbounded_lambda : unbounded (.form .lambdaForm operands env) = (do
    let (formals, body) ← checked (Shape.lambda operands)
    newClosure ⟨formals, body, env, none⟩) :=
  unbounded_eq ((Tends.shaped _).bind fun _ => .newClosure _)

section Lambda

variable {parts : List Value} {formals : List String} {body : Value}

/-- The code of a `lambda`, evaluated without a limit, makes the closure of its parts. -/
theorem unbounded_lambdaCode (parts : List Value) (env : FrameId) :
    unbounded (.eval (Form.code .lambdaForm parts) env) = (do
      let (formals, body) ← checked (Shape.lambda parts)
      newClosure ⟨formals, body, env, none⟩) := by
  rw [unbounded_code, unbounded_lambda]

/-- A procedure of the right shape is made, and no frame is looked at. -/
theorem unbounded_lambdaCode_ok (shape : Shape.lambda parts = .ok (formals, body)) (env : FrameId)
    (heap : Heap) : unbounded (.eval (Form.code .lambdaForm parts) env) heap =
      .ok (.procedure heap.procedures.size)
        (heap.newProcedure (.closure ⟨formals, body, env, none⟩)).2 := by
  rw [unbounded_lambdaCode, shape]
  rfl

/-- A procedure of a wrong shape is an error, and the heap is left as it was. -/
theorem unbounded_lambdaCode_error {error : ShapeError Value} (shape : Shape.lambda parts = .error error)
    (env : FrameId) (heap : Heap) : unbounded (.eval (Form.code .lambdaForm parts) env) heap =
      .error (.error (error.report heap)) heap := by
  rw [unbounded_lambdaCode, shape]
  rfl

end Lambda

/-- `define` without a limit: a closure named at once, or a value, named if its code is a `lambda`; then one slot
of the frame is written. -/
theorem unbounded_define : unbounded (.form .defineForm operands env) = (do
    match ← checked (Shape.definition operands) with
    | .procedure name formals body =>
      write env name (← newClosure ⟨formals, body, env, some name⟩)
    | .value name expr =>
      let value ← unbounded (.eval expr env)
      if Shape.isLambda expr then nameClosure value name
      write env name value
    return .nil) := by
  refine unbounded_eq ((Tends.shaped _).bind fun definition => ?_)
  have finish : ∀ name value, Tends (fun _ => write env name value >>= fun _ => pure Value.nil)
      (write env name value >>= fun _ => pure Value.nil) := fun name value =>
    (Tends.write env name value).bind fun _ => .pure Value.nil
  cases definition with
  | procedure name formals body => exact (Tends.newClosure _).bind fun value => finish name value
  | value name expr =>
      refine (tends _).bind fun value => ?_
      split
      · exact (Tends.nameClosure value name).bind fun _ => finish name value
      · exact finish name value

/-- `let` without a limit: the values outside, then the body in a new frame with all of them. -/
theorem unbounded_let : unbounded (.form .letForm operands env) = (do
    let (bindings, body) ← checked (Shape.letParts "let" false operands)
    let values ← evalEach (fun e => unbounded (.eval e env)) (bindings.map (·.2))
    let frame ← newFrame env ((bindings.map (·.1)).zip values)
    unbounded (.eval body frame)) := by
  refine unbounded_eq ((Tends.shaped _).bind fun (bindings, body) => ?_)
  have values : ∀ e, Tends (fun levels => perform levels (.nested (.eval e env)))
      (unbounded (.eval e env)) := fun e => unbounded_nested (.eval e env) ▸ tends _
  exact (Tends.evalEach values _).bind fun vs => (Tends.newFrame _ _).bind fun frame => tends _

/-- `let*` without a limit: each value in the new frame, with those before it. -/
theorem unbounded_letStar : unbounded (.form .letStarForm operands env) = (do
    let (bindings, body) ← checked (Shape.letParts "let*" true operands)
    let frame ← newFrame env []
    Form.bindInOrder unbounded frame bindings
    unbounded (.eval body frame)) := by
  refine unbounded_eq ((Tends.shaped _).bind fun (bindings, body) => ?_)
  refine (Tends.newFrame _ _).bind fun frame => ?_
  exact (tends_bindInOrder frame bindings).bind fun _ => tends _

/-- `letrec` without a limit: the names unassigned in the new frame, then their values in it in turn. -/
theorem unbounded_letrec : unbounded (.form .letrecForm operands env) = (do
    let (bindings, body) ← checked (Shape.letParts "letrec" false operands)
    let frame ← newFrame env (bindings.map fun (name, _) => (name, .unassigned))
    Form.assignInOrder unbounded frame bindings
    unbounded (.eval body frame)) := by
  refine unbounded_eq ((Tends.shaped _).bind fun (bindings, body) => ?_)
  refine (Tends.newFrame _ _).bind fun frame => ?_
  exact (tends_assignInOrder frame bindings).bind fun _ => tends _

end Call

/-! ## Two runs side by side -/

namespace Correspondence

variable {corr : Correspondence} {α β : Type} {w : corr.World} {post : corr.World → α → β → Prop}

/-- If one of two runs that end alike has run out of depth, so has the other. -/
theorem Ends.settled_iff {result : EStateM.Result Failure Heap α} {result' : EStateM.Result Failure Heap β}
    (ends : corr.Ends False w post result result') : Settled result ↔ Settled result' := by
  cases ends with
  | ok _ _ _ => exact ⟨fun _ => nofun, fun _ => nofun⟩
  | error _ _ _ => exact ⟨fun _ => nofun, fun _ => nofun⟩
  | outOfDepth _ _ => exact ⟨fun settled => absurd rfl (settled _), fun settled => absurd rfl (settled _)⟩
  | early h => exact h.elim

variable {run : Nat → Evaluation α} {run' : Nat → Evaluation β} {limit : Evaluation α}
  {limit' : Evaluation β} {heap heap' : Heap}

/-- Runs that end alike with any number of levels come to results that are alike: whatever the one comes to,
the other comes to what stands for it. -/
theorem comesTo_of_ends (tends : Tends run limit) (tends' : Tends run' limit')
    (ends : ∀ levels, corr.Ends False w post (run levels heap) (run' levels heap')) :
    (∀ result, ComesTo run heap result → ∃ result', ComesTo run' heap' result' ∧
      corr.Ends False w post result result') ∧
    ∀ result', ComesTo run' heap' result' → ∃ result, ComesTo run heap result ∧
      corr.Ends False w post result result' := by
  constructor
  · rintro result ⟨settled, enough, ran⟩
    have ends := ends enough
    rw [ran enough (Nat.le_refl enough)] at ends
    have settled' := ends.settled_iff.mp settled
    exact ⟨_, tends'.comesTo_iff.mpr ⟨(tends'.agrees settled').symm, settled'⟩, ends⟩
  · rintro result' ⟨settled', enough, ran'⟩
    have ends := ends enough
    rw [ran' enough (Nat.le_refl enough)] at ends
    have settled := ends.settled_iff.mpr settled'
    exact ⟨_, tends.comesTo_iff.mpr ⟨(tends.agrees settled).symm, settled⟩, ends⟩

end Correspondence

end ScopedLisp
