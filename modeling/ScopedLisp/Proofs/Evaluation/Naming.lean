import ScopedLisp.Proofs.Evaluation.Grounding
import ScopedLisp.Proofs.Evaluation.InternalDefinitions
import ScopedLisp.Proofs.Evaluation.Moments
import ScopedLisp.Proofs.Heap.Insertion
import ScopedLisp.Proofs.Heap.Naming

/-!
# ScopedLisp.Proofs.Evaluation.Naming

Procedures do not change, except that a new one may take a name, once.

A closure takes its name from the `define` that it is written in, or from the `letrec` that binds it in the frame that
it was made in.  The first kind was made by that very `define`, and the frame of the second kind was made by that
`letrec`; so what was there before the run is not named (`Call.Run.procedures_kept`).

Hosts do not matter here: what they ask for is done by the same steps.
-/

namespace ScopedLisp

open Evaluation

/-! ## Who names closures -/

/-- The name that a definition gives to the procedure that it is written with. -/
def Form.procedureName? (operands : List Value) : Option String :=
  match Shape.definition operands with
  | .ok (.procedure name _ _) => some name
  | .ok (.value name e) => if Shape.isLambda e then some name else none
  | .error _ => none

namespace Call.Run

/-- A run may give a closure a name: a definition names the one that it makes first, and a `letrec` those of the frame
that it makes. -/
inductive Names : Run → ProcedureId → Closure → String → Prop where
  | definition {levels : Nat} {operands : List Value} {heap : Heap} {c : Closure} {name : String} :
      Form.procedureName? operands = some name →
      Names ⟨levels, .form .defineForm operands c.env, heap⟩ heap.procedures.size c name
  | letrec {levels : Nat} {operands : List Value} {env : FrameId} {heap : Heap} {bindings : List (String × Value)}
      {body : Value} {id : ProcedureId} {c : Closure} {name : String} :
      Shape.letParts "letrec" false operands = .ok (bindings, body) → name ∈ bindings.map (·.1) →
      c.env = heap.frames.size → Names ⟨levels, .form .letrecForm operands env, heap⟩ id c name

variable {run : Run} {id : ProcedureId} {c : Closure} {name : String}

/-- What a run may name is new: the closure, or the frame that it was made in. -/
theorem Names.new (names : run.Names id c name) :
    run.heap.frames.size ≤ c.env ∨ run.heap.procedures.size ≤ id := by
  cases names with
  | definition named => exact Or.inr (Nat.le_refl _)
  | letrec shape mem inFrame => exact Or.inl (Nat.le_of_eq inFrame.symm)

/-- A run is involved in another one, and nothing was lost before it began. -/
structure Within (run inner : Run) : Prop where
  involves : run.Involves inner
  frames_le : run.heap.frames.size ≤ inner.heap.frames.size
  procedures_le : run.heap.procedures.size ≤ inner.heap.procedures.size

/-- A closure may be named by a run inside a run. -/
def MayName (run : Run) (id : ProcedureId) (c : Closure) (name : String) : Prop :=
  ∃ inner, run.Within inner ∧ inner.Names id c name

/-- A closure that a run may name was made by it: its frame or itself is new. -/
theorem MayName.new :
    run.MayName id c name → run.heap.frames.size ≤ c.env ∨ run.heap.procedures.size ≤ id
  | ⟨_, within, names⟩ => names.new.imp (Nat.le_trans within.frames_le) (Nat.le_trans within.procedures_le)

end Call.Run

/-- Heaps develop while a run names closures; the answer to a procedure expression is a closure that was just made. -/
def HeapLaw.naming (run : Call.Run) : HeapLaw where
  moves before after := ∃ names, before.Develops run.MayName names after
  refl _ := ⟨[], .start⟩
  trans := fun ⟨_, first⟩ ⟨_, second⟩ => ⟨_, first.trans second⟩
  answers c start v after := (∃ names, start.Develops run.MayName names after) ∧
    ∀ e env, c = .eval e env → Shape.isLambda e = true → ∃ d : Closure, d.name = none ∧ d.env = env ∧
      v = .procedure start.procedures.size ∧ after = (start.newProcedure (.closure d)).2
  moves_of_answers := And.left

namespace HeapLaw

variable {run : Call.Run} {heap : Heap}

/-- A new frame names nothing. -/
theorem moves_newFrame (parent : FrameId) (slots : List (String × Value)) :
    (naming run).moves heap (heap.newFrame (some parent) slots).2 :=
  ⟨[], .newFrame parent slots .start⟩

/-- A closure that is made without a name gets none. -/
theorem moves_newClosure {c : Closure} (unnamed : c.name = none) :
    (naming run).moves heap (heap.newProcedure (.closure c)).2 :=
  ⟨[], .newClosure unnamed .start⟩

/-- Writing a slot names nothing. -/
theorem moves_write (f : FrameId) (name : String) (v : Value) :
    (naming run).moves heap (heap.write f name v) :=
  ⟨[], .write f name v .start⟩

/-- To name a closure that has no name, where that is allowed. -/
theorem moves_named {id : ProcedureId} {c : Closure} {name : String}
    (there : heap.procedures[id]? = some (.closure c)) (unnamed : c.name = none) (allowed : run.MayName id c name) :
    (naming run).moves heap ((heap.nameClosure id name).write c.env name (.procedure id)) :=
  ⟨[(id, name)], .named there unnamed allowed .start⟩

end HeapLaw

/-! ## Steps -/

namespace Obeying

open HeapLaw

variable {run : Call.Run} {fair : Prop} {heap : Heap} {env : FrameId} {operands : List Value}

/-- `write` obeys. -/
theorem write (f : FrameId) (name : String) (v : Value) :
    Obeying (naming run) fair heap fun _ => Evaluation.write f name v :=
  alone fun _ => moves_write f name v

/-- The closure that a definition is written with is new when it takes the name. -/
theorem runDefine {n : Nat} (remaining : Nat) (within : run.Within ⟨n, .form .defineForm operands env, heap⟩) :
    Obeying (naming run) fair heap fun call => Form.runDefine remaining call operands env := by
  have named : ∀ {c : Closure} {name : String}, c.name = none → c.env = env →
      Form.procedureName? operands = some name → let mid := (heap.newProcedure (.closure c)).2
      (naming run).moves mid ((mid.nameClosure heap.procedures.size name).write env name
        (.procedure heap.procedures.size)) := by
    rintro c name unnamed rfl named mid
    have there : mid.procedures[heap.procedures.size]? = some (.closure c) := by simp [mid, Heap.newProcedure]
    exact moves_named there unnamed ⟨_, within, .definition named⟩
  refine shaped fun definition shape => ?_
  cases definition with
  | procedure name formals body =>
      have isNamed : Form.procedureName? operands = some name := by simp only [Form.procedureName?, shape]
      have unnamed : (⟨formals, body, env, none⟩ : Closure).name = none := rfl
      have moves := (naming run).trans (moves_newClosure unnamed) (named unnamed rfl isNamed)
      rw [Heap.nameClosure_newProcedure] at moves
      exact alone fun _ => moves
  | value name e =>
      refine ask (.eval e env) fun v after => ?_
      have finish : ∀ {fair : Prop} {heap : Heap}, Obeying (naming run) fair heap fun _ =>
          (Evaluation.write env name v >>= fun _ => Pure.pure Value.nil : Evaluation Value) :=
        (write env name v).bind fun _ _ => pure _
      split
      next lambda =>
        have isNamed : Form.procedureName? operands = some name := by
          simp only [Form.procedureName?, shape, if_pos lambda]
        refine alone fun answers => ?_
        obtain ⟨c, unnamed, inFrame, rfl, rfl⟩ := answers.2.2 e env rfl lambda
        exact named unnamed inFrame isNamed
      · exact finish

/-- `lambda` makes a closure without a name. -/
theorem runLambda (remaining : Nat) :
    Obeying (naming run) fair heap fun _ => Form.runLambda remaining operands env :=
  shaped fun _ _ => alone fun _ => moves_newClosure rfl

/-- `let` names nothing of its own. -/
theorem runLet (remaining : Nat) :
    Obeying (naming run) fair heap fun call => Form.runLet remaining call operands env := by
  refine shaped fun ⟨bindings, body⟩ _ => ?_
  refine (evalEach (fun e _ => call (.nested (.eval e env))) _).bind fun values after => ?_
  exact Obeying.after rfl (fun _ => moves_newFrame env _) (call _)

/-- The bindings of `let*` name nothing of their own. -/
theorem bindInOrder (frame : FrameId) (bindings : List (String × Value)) :
    Obeying (naming run) fair heap fun call => Form.bindInOrder call frame bindings := by
  induction bindings generalizing heap with
  | nil => exact pure ()
  | cons binding rest ih =>
      exact (call (.eval binding.2 frame)).bind fun v _ => (write frame binding.1 v).bind fun _ _ => ih

/-- `let*` names nothing of its own. -/
theorem runLetStar (remaining : Nat) :
    Obeying (naming run) fair heap fun call => Form.runLetStar remaining call operands env := by
  refine shaped fun ⟨bindings, body⟩ _ => ?_
  refine Obeying.after rfl (fun _ => moves_newFrame env []) ?_
  exact (bindInOrder _ bindings).bind fun _ _ => call _

/-- A closure of the frame that has no name takes the one that it is bound to; other values are bound as they are. -/
theorem assignInOrder {frame : FrameId} {bindings : List (String × Value)}
    (allowed : ∀ binding ∈ bindings, ∀ id (c : Closure), c.env = frame → run.MayName id c binding.1) :
    Obeying (naming run) fair heap fun call => Form.assignInOrder call frame bindings := by
  induction bindings generalizing heap with
  | nil => exact pure ()
  | cons binding rest ih =>
      obtain ⟨first, others⟩ := List.forall_mem_cons.mp allowed
      refine (call (.eval binding.2 frame)).bind fun v mid => ?_
      refine Obeying.after rfl (fun _ => (naming run).refl mid) ?_
      refine ite (fun fresh => ?_) fun _ => (write frame binding.1 v).bind fun _ _ => ih others
      obtain ⟨id, c, rfl, there, unnamed, rfl⟩ := Form.exists_of_isFresh fresh
      let bindNamed : Evaluation Unit := do
        nameClosure (.procedure id) binding.1
        Evaluation.write c.env binding.1 (.procedure id)
      have together : Obeying (naming run) fair mid fun call => (do
          bindNamed
          Form.assignInOrder call c.env rest) :=
        Obeying.after rfl (fun _ => moves_named there unnamed (first id c rfl)) (ih others)
      exact together

/-- `letrec` names the fresh closures among its values, each once. -/
theorem runLetrec {n : Nat} (remaining : Nat) (within : run.Within ⟨n, .form .letrecForm operands env, heap⟩) :
    Obeying (naming run) fair heap fun call => Form.runLetrec remaining call operands env := by
  refine shaped fun ⟨bindings, body⟩ shape => ?_
  refine Obeying.after rfl (fun _ => moves_newFrame env _) ?_
  refine (assignInOrder fun binding mem id c inFrame => ?_).bind fun _ _ => call _
  exact ⟨_, within, .letrec shape (List.mem_map_of_mem mem) inFrame⟩

/-- Every form obeys: `define` and `letrec` name closures, the others do not. -/
theorem form {n : Nat} {keyword : Keyword} (remaining : Nat)
    (within : run.Within ⟨n, .form keyword operands env, heap⟩) :
    Obeying (naming run) fair heap fun call => Form.run remaining call keyword operands env := by
  cases keyword with
  | ifForm => exact runIf remaining operands
  | defineForm => exact runDefine remaining within
  | lambdaForm => exact runLambda remaining
  | beginForm => exact runBegin operands
  | letForm => exact runLet remaining
  | letStarForm => exact runLetStar remaining
  | letrecForm => exact runLetrec remaining within
  | andForm => exact runAnd operands
  | orForm => exact runOr operands
  | condForm => exact runCond remaining operands

/-- Requests of the host name nothing. -/
theorem answer (request : HostRequest) :
    Obeying (naming run) fair heap fun call => Call.answer call env request := by
  cases request with
  | answer v => exact pure v
  | fail error => exact still fun _ => .fail error
  | lookup name => exact still fun _ => .query _
  | define name v => exact (write env name v).bind fun _ _ => pure _
  | depth => exact alone fun _ => (naming run).refl heap
  | apply procedure args => exact call _

/-- Application names nothing of its own. -/
theorem applyProcedure (procedure : Value) (args : List Value) :
    Obeying (naming run) fair heap fun call => Call.applyProcedure call procedure args env := by
  refine Obeying.after rfl (fun _ => (naming run).refl heap) ?_
  beta_reduce
  cases heap.procedure? procedure with
  | none => exact still fun _ => .failShowing _ _
  | some found =>
      cases found with
      | closure c =>
          refine ite (fun _ => ?_) fun _ => still fun _ => .fail _
          exact Obeying.after rfl (fun _ => moves_newFrame c.env _) (call _)
      | primitive name p => exact still fun _ => .query _
      | host name respond => exact answer (respond args)

/-- Every step obeys, also that of a procedure of the host. -/
theorem step {levels : Nat} {c : Call} (within : run.Within ⟨levels + 1, c, heap⟩) :
    Obeying (naming run) fair heap fun call => Call.step levels call c := by
  cases c with
  | eval code env => exact evalCode code
  | form keyword operands env => exact form levels within
  | apply procedure args env => exact applyProcedure procedure args
  | nested inner => exact call inner

end Obeying

/-! ## What runs mention -/

namespace Correspondence

/-- A call stands for itself and for no other one, and there is a frame that it runs in. -/
theorem eq_of_callPair_grounded {extent : Heap.Extent} {c c' : Call} (pair : grounded.CallPair extent c c') :
    c = c' ∧ 0 < extent.frames := by
  induction pair with
  | eval code frame =>
      rw [(below_of_body code).1, frame.1]
      exact ⟨rfl, Nat.zero_lt_of_lt frame.2⟩
  | form codes frame =>
      rw [(forall₂_below.mp codes).1, frame.1]
      exact ⟨rfl, Nat.zero_lt_of_lt frame.2⟩
  | apply procedure args frame =>
      rw [procedure.1, (forall₂_below.mp args).1, frame.1]
      exact ⟨rfl, Nat.zero_lt_of_lt frame.2⟩
  | nested _ ih =>
      rw [ih.1]
      exact ⟨rfl, ih.2⟩

end Correspondence

namespace Call.Run

variable {run outer inner : Run} {before later : Heap}

/-- All that a run mentions is there when it begins. -/
def Grounded (run : Run) : Prop :=
  ∃ extent, run.heap.GroundedAt extent ∧ Correspondence.grounded.CallPair extent run.call run.call

/-- To evaluate code that mentions what is there. -/
theorem grounded_eval {heap : Heap} (grounded : heap.Grounded) (hosts : heap.HostsGrounded) {code : Value}
    (below : code.Below heap.procedures.size) {env : FrameId} (lt : env < heap.frames.size) (levels : Nat) :
    Grounded ⟨levels, .eval code env, heap⟩ :=
  ⟨⟨heap.frames.size, heap.procedures.size⟩, ⟨grounded, hosts, rfl, rfl⟩, .eval (.code ⟨rfl, below⟩) ⟨rfl, lt⟩⟩

/-- What a run that mentions only what there is calls is such a run. -/
theorem Grounded.of_makes (grounded : outer.Grounded) (makes : outer.Makes inner) : inner.Grounded := by
  obtain ⟨extent, here, pair⟩ := grounded
  obtain ⟨levels, fails⟩ := makes
  by_contra other
  have lawful := Correspondence.grounded_lawful
  let call := Caller.failingAt (perform inner.levels) inner.call inner.heap .outOfDepth .empty
  -- the inner call could then be answered with an empty heap, which stands for nothing
  have follows : Correspondence.grounded.Follows False call call := by
    rintro w c c' pair h h' ⟨rfl, here⟩
    obtain ⟨rfl, -⟩ := Correspondence.eq_of_callPair_grounded pair
    simp only [call, Caller.failingAt]
    split
    next same =>
      obtain ⟨rfl, rfl⟩ := same
      exact absurd ⟨w, here, pair⟩ other
    · exact Correspondence.perform lawful inner.levels w c c pair h h ⟨rfl, here⟩
  have ends := follows.step lawful (Nat.le_refl inner.levels) (fun lt => Nat.lt_irrefl _ lt) extent _ _ pair
    outer.heap outer.heap ⟨rfl, here⟩
  rw [fails] at ends
  cases ends with
  | outOfDepth more empty =>
      have some := (Correspondence.eq_of_callPair_grounded pair).2
      have none : 0 = _ := empty.2.frames
      exact Nat.not_le_of_lt some (none ▸ more.1)
  | early h => exact h

/-- So is everything that it involves. -/
theorem Grounded.of_involves (grounded : run.Grounded) (involves : run.Involves inner) : inner.Grounded := by
  induction involves with
  | refl => exact grounded
  | tail _ makes ih => exact ih.of_makes makes

/-! ## Runs -/

/-- A run is within itself. -/
theorem within_self (run : Run) : run.Within run := ⟨.refl, Nat.le_refl _, Nat.le_refl _⟩

/-- Whatever a run does, it follows the law. -/
theorem naming_governs (run : Run) : (HeapLaw.naming run).Governs run.Within where
  makes within makes := by
    rintro ⟨names, develops⟩
    have once := develops.namedOnce
    exact ⟨within.involves.tail makes, Nat.le_trans within.frames_le once.frames_le,
      Nat.le_trans within.procedures_le once.procedures_le⟩
  scripted within := Obeying.step within
  answers _ ran moves := by
    refine ⟨moves, ?_⟩
    rintro e env rfl lambda
    exact eq_newClosure_of_isLambda lambda ran

/-- **Only new closures are named**: between two heaps that a run meets, the heap develops, and what is named was
not there when the run began. -/
theorem exists_develops (envs : ∀ {c}, .closure c ∈ run.heap.procedures → c.env < run.heap.frames.size)
    (meets : run.MeetsInOrder before later) : ∃ names, before.Develops run.MayName names later ∧
      ∀ {id name}, (id, name) ∈ names → run.heap.procedures.size ≤ id := by
  obtain ⟨earlier, first⟩ := (run.naming_governs.meets run.within_self meets.left).1
  obtain ⟨names, develops⟩ := run.naming_governs.inOrder run.within_self meets
  refine ⟨names, develops, fun mem => ?_⟩
  exact (first.trans develops).namedOnce.procedures_le_of_mem (fun _ _ _ allowed => allowed.new) envs
    (List.mem_append_right _ mem)

/-- **Procedures do not change**: what was there when a run began is the same when it ends. -/
theorem procedures_kept (envs : ∀ {c}, .closure c ∈ run.heap.procedures → c.env < run.heap.frames.size)
    {id : ProcedureId} (lt : id < run.heap.procedures.size) :
    run.heapAfter.procedures[id]? = run.heap.procedures[id]? := by
  obtain ⟨names, develops, new⟩ := exists_develops envs (.start .finish)
  exact develops.namedOnce.procedure_eq new lt

/-- A definition that names a procedure makes it, and names it before any frame holds it. -/
theorem define_names_unseen {levels : Nat} {operands : List Value} {f : FrameId} {heap after : Heap} {name : String}
    {v : Value} (grounded : heap.Grounded) (named : Form.procedureName? operands = some name)
    (ran : perform levels (.form .defineForm operands f) heap = .ok v after) :
    ∃ c : Closure, c.name = none ∧ c.env = f ∧
      let id := heap.procedures.size
      let mid := (heap.newProcedure (.closure c)).2
      after = (mid.nameClosure id name).write f name (.procedure id) ∧
        ∀ frame ∈ mid.frames, ∀ slot ∈ frame.slots, ¬slot.2.Holds id := by
  have unseen : ∀ frame ∈ heap.frames, ∀ slot ∈ frame.slots, ¬slot.2.Holds heap.procedures.size :=
    fun frame there slot mem holds => Nat.lt_irrefl _ (grounded.slot there mem holds)
  rcases levels with _ | levels
  · cases ran
  change Form.runDefine levels (perform levels) operands f heap = .ok v after at ran
  unfold Form.runDefine at ran
  cases shape : Shape.definition operands with
  | error error => simp only [Form.procedureName?, shape] at named; cases named
  | ok definition =>
      rw [shape] at ran
      cases definition with
      | procedure name' formals body =>
          simp only [Form.procedureName?, shape] at named
          cases named
          cases ran
          refine ⟨⟨formals, body, f, none⟩, rfl, rfl, ?_, unseen⟩
          rw [Heap.nameClosure_newProcedure]
          rfl
      | value name' e =>
          simp only [Form.procedureName?, shape] at named
          split at named
          next lambda =>
            cases named
            simp only [Evaluation.shaped, pure_bind, if_pos lambda] at ran
            cases evaluated : perform levels (.eval e f) heap with
            | error failure mid =>
                rw [bind_of_error evaluated] at ran
                cases ran
            | ok value mid =>
                obtain ⟨c, unnamed, inFrame, rfl, rfl⟩ := eq_newClosure_of_isLambda lambda evaluated
                rw [bind_of_ok evaluated] at ran
                cases ran
                exact ⟨c, unnamed, inFrame, rfl, unseen⟩
          · cases named

end Call.Run

/-- **Procedures are immutable and named at most once**: for every evaluation in a session whose heap mentions only
what is there, whether it ends with a value or with an error.

* Every procedure that was there before is the same afterwards.  So it is for every call inside: none changes a
  procedure that it finds, wherever that came from and under whatever name.
* Between two heaps that are met one after the other, closures are made without names, and each that takes a name
  takes it once.  It had none, it was made during the evaluation, and it is bound to the name in its own frame; the
  name is that of a definition in this frame, which made it, or of a binding of the `letrec` which made this frame.
* Where a definition names a procedure, no frame holds that procedure yet. -/
theorem procedures_named_once {session : Session} (grounded : session.heap.Grounded)
    (hosts : session.heap.HostsGrounded) {code : Value} (below : code.Below session.heap.procedures.size)
    {env : FrameId} (lt : env < session.heap.frames.size) :
    let run : Call.Run := ⟨session.depthLimit, .eval code env, session.heap⟩
    let after := ((Step.evaluate code env).sessionAfter session).heap
    (∀ id < session.heap.procedures.size, after.procedures[id]? = session.heap.procedures[id]?) ∧
    (∀ inner, run.Involves inner → ∀ id < inner.heap.procedures.size,
      inner.heapAfter.procedures[id]? = inner.heap.procedures[id]?) ∧
    (∀ before later, run.MeetsInOrder before later →
      let named (id : ProcedureId) (c : Closure) (name : String) : Prop :=
        ∃ inner, run.Involves inner ∧ inner.Names id c name
      ∃ names, before.Develops named names later ∧ before.NamedOnce named names later ∧
        ∀ entry ∈ names, session.heap.procedures.size ≤ entry.1) ∧
    ∀ levels operands f heap name, run.Involves ⟨levels, .form .defineForm operands f, heap⟩ →
      Form.procedureName? operands = some name → ∀ v last,
      Call.perform levels (.form .defineForm operands f) heap = .ok v last →
      ∃ c : Closure, c.name = none ∧ c.env = f ∧
        let id := heap.procedures.size
        let mid := (heap.newProcedure (.closure c)).2
        last = (mid.nameClosure id name).write f name (.procedure id) ∧
          ∀ frame ∈ mid.frames, ∀ slot ∈ frame.slots, ¬slot.2.Holds id := by
  intro run after
  have involved : ∀ {inner}, run.Involves inner → inner.heap.Grounded := fun involves => by
    obtain ⟨extent, here, -⟩ := (Call.Run.grounded_eval grounded hosts below lt session.depthLimit).of_involves involves
    exact here.grounded
  have kept : ∀ inner, run.Involves inner → ∀ id < inner.heap.procedures.size,
      inner.heapAfter.procedures[id]? = inner.heap.procedures[id]? := fun inner involves id lt =>
    Call.Run.procedures_kept (involved involves).env lt
  refine ⟨fun id lt => ?_, kept, fun before later meets => ?_, fun levels operands f heap name involves named v last
    ran => Call.Run.define_names_unseen (involved involves) named ran⟩
  · have same : after = run.heapAfter := Step.heap_sessionAfter_evaluate code env session
    rw [same]
    exact kept run .refl id lt
  · obtain ⟨names, develops, new⟩ := Call.Run.exists_develops grounded.env meets
    let named (id : ProcedureId) (c : Closure) (name : String) : Prop :=
      ∃ inner, run.Involves inner ∧ inner.Names id c name
    have develops : before.Develops named names later :=
      develops.mono fun _ _ _ ⟨inner, within, byInner⟩ => ⟨inner, within.involves, byInner⟩
    exact ⟨names, develops, develops.namedOnce, fun entry mem => new mem⟩

/-- A procedure without a name, which is bound already, gets none from `(begin (define g f) (letrec ((h f)) h))`. -/
theorem procedures_named_once_alias :
    let heap : Heap := ⟨#[⟨none, [("f", .procedure 0)]⟩], #[.closure ⟨["x"], .atom "x", 0, none⟩]⟩
    let session : Session := { Session.start with heap }
    let letrec := Form.letCode .letrecForm [("h", .atom "f")] [.atom "h"]
    let code := Form.sequence [Form.defineCode ("g", .atom "f"), letrec]
    let after := ((Step.evaluate code 0).sessionAfter session).heap
    heap.Grounded ∧ heap.HostsGrounded ∧ code.Below heap.procedures.size ∧ 0 < heap.frames.size ∧
      after.get? 0 "g" = some (.procedure 0) ∧ after.procedures[0]? = heap.procedures[0]? := by
  intro heap session letrec code after
  have closure : ∀ {p : Procedure}, p ∈ heap.procedures → p = .closure ⟨["x"], .atom "x", 0, none⟩ := fun mem =>
    List.mem_singleton.mp (Array.mem_toList_iff.mpr mem)
  have grounded : heap.Grounded := {
    parent := fun {f parent} h => by
      obtain ⟨frame, there, isParent⟩ := Option.bind_eq_some_iff.mp h
      have mem : frame = ⟨none, [("f", .procedure 0)]⟩ :=
        List.mem_singleton.mp (Array.mem_toList_iff.mpr (Array.mem_of_getElem? there))
      subst mem
      cases isParent
    slot := fun {frame slot id} there mem holds => by
      have eq : frame = ⟨none, [("f", .procedure 0)]⟩ := List.mem_singleton.mp (Array.mem_toList_iff.mpr there)
      subst eq
      cases List.mem_singleton.mp mem
      cases holds
      exact Nat.zero_lt_one
    env := fun there => by
      cases closure there
      exact Nat.zero_lt_one
    body := fun there holds => by
      cases closure there
      cases holds }
  have hosts : heap.HostsGrounded := fun name respond mem => by cases closure mem
  have written : code.Written fun _ => True := Expr.written_toValue (.list [.atom "begin",
    .list [.atom "define", .atom "g", .atom "f"],
    .list [.atom "letrec", .list [.list [.atom "h", .atom "f"]], .atom "h"]])
  have below : code.Below heap.procedures.size := fun id holds => absurd holds (written.not_holds id)
  have lt : 0 < heap.frames.size := Nat.zero_lt_one
  obtain ⟨kept, -⟩ := @procedures_named_once session grounded hosts code below 0 lt
  exact ⟨grounded, hosts, below, lt, rfl, kept 0 Nat.zero_lt_one⟩

end ScopedLisp
