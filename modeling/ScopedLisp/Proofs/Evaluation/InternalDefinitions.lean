import ScopedLisp.Proofs.Evaluation.Unbounded
import ScopedLisp.Proofs.Heap.Addresses
import ScopedLisp.Proofs.Heap.Omission

/-!
# ScopedLisp.Proofs.Evaluation.InternalDefinitions

`let*` and `letrec` bind in one new frame, as definitions at the head of a body do.  `Form.defineInOrder`
is what a row of definitions does in a frame.

* Without a procedure among the values, `let*` does just the same.
* With nothing but procedures, `letrec` does the same to each slot: to make a closure takes no look at any
  frame.  Only the slots that wait to be assigned are there before; when all are assigned, nothing is left of
  the difference (`Frame.setAll_declared`).  A procedure of a wrong shape ends both with the same error, and what
  differs then is a frame that nobody can reach.
-/

namespace ScopedLisp

open Evaluation

/-! ## Definitions in a row -/

namespace Form

/-- The slots of a `letrec` before any of them is assigned. -/
def declared (bindings : List (String × Value)) : List (String × Value) :=
  bindings.map fun (name, _) => (name, .unassigned)

/-- Define name after name in a frame. -/
def defineInOrder (call : Caller) (frame : FrameId) : List (String × Value) → Evaluation Unit
  | [] => pure ()
  | (name, expr) :: rest => do
    let value ← call (.eval expr frame)
    (if Shape.isLambda expr then nameClosure value name else pure ())
    write frame name value
    defineInOrder call frame rest

/-- Where no value is written as a procedure, to define in order is to bind in order. -/
theorem defineInOrder_eq_bindInOrder (call : Caller) (frame : FrameId) {bindings : List (String × Value)}
    (values : ∀ binding ∈ bindings, Shape.isLambda binding.2 = false) :
    defineInOrder call frame bindings = bindInOrder call frame bindings := by
  induction bindings with
  | nil => rfl
  | cons binding bindings ih =>
      obtain ⟨first, rest⟩ := List.forall_mem_cons.mp values
      simp only [defineInOrder, bindInOrder, first, ih rest]
      rfl

end Form

namespace Call

variable {bindings : List (String × Value)} {body : List Value}

/-- Of expressions in a row the first is evaluated for what it does. -/
theorem evalLast_cons (eval : Value → Evaluation Value) (e : Value) {es : List Value} (more : es ≠ []) :
    evalLast eval (e :: es) = (do let _ ← eval e; evalLast eval es) := by
  cases es with
  | nil => exact absurd rfl more
  | cons _ _ => rfl

theorem unbounded_defineCode {binding : String × Value} (h : Literal.ofText binding.1 = .name)
    (env : FrameId) : unbounded (.eval (Form.defineCode binding) env) = (do
      let value ← unbounded (.eval binding.2 env)
      (if Shape.isLambda binding.2 then nameClosure value binding.1 else pure ())
      write env binding.1 value
      return .nil) := by
  rw [Form.defineCode, unbounded_code, unbounded_define, Shape.definition_code h]
  simp only [checked, pure_bind]
  refine bind_congr fun value => ?_
  split <;> rfl

/-- Definitions at the head of a body are made in order. -/
theorem evalLast_defineCode (h : ∀ binding ∈ bindings, Literal.ofText binding.1 = .name)
    (nonempty : body ≠ []) (env : FrameId) :
    evalLast (fun e => unbounded (.eval e env)) (bindings.map Form.defineCode ++ body) = (do
      Form.defineInOrder unbounded env bindings
      evalLast (fun e => unbounded (.eval e env)) body) := by
  induction bindings with
  | nil => rfl
  | cons binding bindings ih =>
      obtain ⟨first, rest⟩ := List.forall_mem_cons.mp h
      have more : bindings.map Form.defineCode ++ body ≠ [] := List.append_ne_nil_of_right_ne_nil _ nonempty
      rw [List.map_cons, List.cons_append, evalLast_cons _ _ more, unbounded_defineCode first, ih rest]
      simp only [Form.defineInOrder, bind_assoc, pure_bind]

/-- A body with definitions at its head, in a new frame. -/
theorem unbounded_definitions (h : ∀ binding ∈ bindings, Literal.ofText binding.1 = .name)
    (nonempty : body ≠ []) (env : FrameId) :
    unbounded (.eval (Form.letCode .letForm [] (bindings.map Form.defineCode ++ body)) env) = (do
      let frame ← newFrame env []
      Form.defineInOrder unbounded frame bindings
      evalLast (fun e => unbounded (.eval e frame)) body) := by
  have more : bindings.map Form.defineCode ++ body ≠ [] := List.append_ne_nil_of_right_ne_nil _ nonempty
  have shape : Shape.letParts "let" false
      (.list ([].map Form.bindingCode) :: (bindings.map Form.defineCode ++ body)) =
        .ok ([], Form.sequence (bindings.map Form.defineCode ++ body)) :=
    Shape.letParts_code (fun _ mem => absurd mem List.not_mem_nil) (Or.inr List.nodup_nil) more
  rw [Form.letCode, unbounded_code, unbounded_let, shape]
  simp only [checked, pure_bind, List.map_nil, evalEach, List.zip_nil_left, unbounded_sequence more]
  exact bind_congr fun frame => evalLast_defineCode h nonempty frame

theorem unbounded_letStarCode (h : ∀ binding ∈ bindings, Literal.ofText binding.1 = .name)
    (nonempty : body ≠ []) (env : FrameId) :
    unbounded (.eval (Form.letCode .letStarForm bindings body) env) = (do
      let frame ← newFrame env []
      Form.bindInOrder unbounded frame bindings
      evalLast (fun e => unbounded (.eval e frame)) body) := by
  rw [Form.letCode, unbounded_code, unbounded_letStar, Shape.letParts_code h (Or.inl rfl) nonempty]
  simp only [checked, pure_bind, unbounded_sequence nonempty]

theorem unbounded_letrecCode (h : ∀ binding ∈ bindings, Literal.ofText binding.1 = .name)
    (distinct : (bindings.map (·.1)).Nodup) (nonempty : body ≠ []) (env : FrameId) :
    unbounded (.eval (Form.letCode .letrecForm bindings body) env) = (do
      let frame ← newFrame env (Form.declared bindings)
      Form.assignInOrder unbounded frame bindings
      evalLast (fun e => unbounded (.eval e frame)) body) := by
  rw [Form.letCode, unbounded_code, unbounded_letrec, Shape.letParts_code h (Or.inr distinct) nonempty]
  simp only [checked, pure_bind, unbounded_sequence nonempty, Form.declared]

end Call

/-! ## A frame that was just made -/

namespace Frame

/-- Where all names wait to be assigned, nothing is left of what was there once they are set. -/
theorem setAll_declared {names : List String} (values : List Value) (before : List (String × Value))
    (distinct : (before.map (·.1) ++ names).Nodup) (all : values.length = names.length) :
    setAll (names.zip values) (before ++ names.map fun name => (name, .unassigned)) =
      before ++ names.zip values := by
  induction names generalizing values before with
  | nil => simp [setAll]
  | cons name names ih =>
      cases values with
      | nil => cases all
      | cons v values =>
          have new : name ∉ before.map (·.1) := fun mem =>
            (List.nodup_append.mp distinct).2.2 name mem name List.mem_cons_self rfl
          have rest := ih values (before ++ [(name, v)]) (by simpa using distinct)
            (Nat.succ.inj all)
          rw [List.append_assoc, List.append_assoc] at rest
          rw [List.zip_cons_cons, List.map_cons]
          change setAll _ (setSlot name v _) = _
          rw [setSlot_append v _ new, setSlot, if_pos rfl]
          exact rest

end Frame

namespace Heap

theorem modify_push {α : Type} (xs : Array α) (a : α) (g : α → α) :
    (xs.push a).modify xs.size g = xs.push (g a) := by
  refine Array.ext_getElem? fun i => ?_
  rw [Array.getElem?_modify, Array.getElem?_push, Array.getElem?_push]
  by_cases last : i = xs.size
  · simp [last]
  · rw [if_neg (Ne.symm last), if_neg last, if_neg last]

/-- To write to the frame that was just made is to make it with another slot. -/
theorem write_newFrame (heap : Heap) (parent : Option FrameId) (slots : List (String × Value))
    (name : String) (v : Value) : (heap.newFrame parent slots).2.write heap.frames.size name v =
      (heap.newFrame parent (Frame.setSlot name v slots)).2 := by
  simp only [write, newFrame, modify_push, Frame.set]

/-- To name the closure that was just made is to make it with a name. -/
theorem nameClosure_newProcedure (heap : Heap) (c : Closure) (name : String) :
    (heap.newProcedure (.closure c)).2.nameClosure heap.procedures.size name =
      (heap.newProcedure (.closure { c with name := some name })).2 := by
  simp only [nameClosure, newProcedure, modify_push]

end Heap

/-! ## Procedures in a row -/

/-- Code of a procedure, of the right shape. -/
def Shape.IsProcedure (e : Value) : Prop :=
  ∃ parts names body, e = Form.code .lambdaForm parts ∧ Shape.lambda parts = .ok (names, body)

/-- What an error of shape quotes depends on the procedures of the heap alone. -/
theorem ShapeError.report_eq_of_procedures {heap heap' : Heap} (error : ShapeError Value)
    (same : heap.procedures = heap'.procedures) : error.report heap = error.report heap' := by
  simp only [report, Value.describe_congr same]

namespace Call

variable {base : Heap} {parent : Option FrameId} {slots : List (String × Value)} {name : String}
  {parts : List Value} {formals : List String} {body : Value} {rest : List (String × Value)}

/-- What a definition of a procedure, or its assignment, leaves: the closure with its name, and its slot. -/
theorem named_newProcedure (c : Closure) :
    (((base.newProcedure (.closure c)).2.newFrame parent slots).2.nameClosure base.procedures.size
      name).write base.frames.size name (.procedure base.procedures.size) =
    ((base.newProcedure (.closure { c with name := some name })).2.newFrame parent
      (Frame.setSlot name (.procedure base.procedures.size) slots)).2 := by
  have named := base.nameClosure_newProcedure c name
  have written := (base.newProcedure (.closure { c with name := some name })).2.write_newFrame parent slots
    name (.procedure base.procedures.size)
  rw [← written, ← named]
  rfl

theorem defineInOrder_cons_ok (shape : Shape.lambda parts = .ok (formals, body)) :
    Form.defineInOrder unbounded base.frames.size ((name, Form.code .lambdaForm parts) :: rest)
      (base.newFrame parent slots).2 =
    Form.defineInOrder unbounded base.frames.size rest ((base.newProcedure
      (.closure ⟨formals, body, base.frames.size, some name⟩)).2.newFrame parent
        (Frame.setSlot name (.procedure base.procedures.size) slots)).2 := by
  simp only [Form.defineInOrder, Bind.bind, EStateM.bind, unbounded_lambdaCode_ok shape]
  exact congrArg _ (named_newProcedure _)

theorem assignInOrder_cons_ok (shape : Shape.lambda parts = .ok (formals, body)) :
    Form.assignInOrder unbounded base.frames.size ((name, Form.code .lambdaForm parts) :: rest)
      (base.newFrame parent slots).2 =
    Form.assignInOrder unbounded base.frames.size rest ((base.newProcedure
      (.closure ⟨formals, body, base.frames.size, some name⟩)).2.newFrame parent
        (Frame.setSlot name (.procedure base.procedures.size) slots)).2 := by
  have fresh : Form.isFresh ((base.newFrame parent slots).2.newProcedure
      (.closure ⟨formals, body, base.frames.size, none⟩)).2 base.frames.size
        (.procedure (base.newFrame parent slots).2.procedures.size) = true := by
    simp [Form.isFresh, Heap.closure?, Heap.procedure?, Heap.newFrame, Heap.newProcedure]
  simp only [Form.assignInOrder, Bind.bind, EStateM.bind, unbounded_lambdaCode_ok shape, view, fresh,
    if_true]
  exact congrArg _ (named_newProcedure _)

/-- Where all values are procedures, to assign in order is to define in order. -/
theorem assignInOrder_eq_defineInOrder {bindings : List (String × Value)}
    (lambdas : ∀ binding ∈ bindings, Shape.isLambda binding.2 = true) (base : Heap)
    (slots : List (String × Value)) :
    Form.assignInOrder unbounded base.frames.size bindings (base.newFrame parent slots).2 =
      Form.defineInOrder unbounded base.frames.size bindings (base.newFrame parent slots).2 := by
  induction bindings generalizing base slots with
  | nil => rfl
  | cons binding bindings ih =>
      obtain ⟨name, e⟩ := binding
      obtain ⟨lambda, others⟩ := List.forall_mem_cons.mp lambdas
      obtain ⟨parts, rfl⟩ := Shape.isLambda_iff.mp lambda
      cases shape : Shape.lambda parts with
      | ok found =>
          obtain ⟨formals, body⟩ := found
          rw [assignInOrder_cons_ok shape, defineInOrder_cons_ok shape]
          exact ih others (base.newProcedure (.closure ⟨formals, body, base.frames.size, some name⟩)).2 _
      | error error =>
          simp only [Form.assignInOrder, Form.defineInOrder, Bind.bind, EStateM.bind,
            unbounded_lambdaCode_error shape]

/-- Procedures of the right shape are all defined, whatever slots there were. -/
theorem defineInOrder_procedures {bindings : List (String × Value)}
    (procedures : ∀ binding ∈ bindings, Shape.IsProcedure binding.2) (base : Heap)
    (parent : Option FrameId) : ∃ (after : Heap) (values : List Value), after.frames = base.frames ∧
      values.length = bindings.length ∧ ∀ slots,
        Form.defineInOrder unbounded base.frames.size bindings (base.newFrame parent slots).2 =
          .ok () (after.newFrame parent (Frame.setAll ((bindings.map (·.1)).zip values) slots)).2 := by
  induction bindings generalizing base with
  | nil => exact ⟨base, [], rfl, rfl, fun _ => rfl⟩
  | cons binding bindings ih =>
      obtain ⟨name, e⟩ := binding
      obtain ⟨⟨parts, formals, body, rfl, shape⟩, others⟩ := List.forall_mem_cons.mp procedures
      obtain ⟨after, values, frames, all, defined⟩ := ih others
        (base.newProcedure (.closure ⟨formals, body, base.frames.size, some name⟩)).2
      refine ⟨after, .procedure base.procedures.size :: values, frames, congrArg _ all, fun slots => ?_⟩
      rw [defineInOrder_cons_ok shape]
      exact defined _

/-- A procedure of a wrong shape ends a row of definitions with an error that depends on no slot. -/
theorem defineInOrder_malformed {bindings : List (String × Value)}
    (lambdas : ∀ binding ∈ bindings, Shape.isLambda binding.2 = true)
    (malformed : ∃ binding ∈ bindings, ¬Shape.IsProcedure binding.2) (base : Heap)
    (parent : Option FrameId) : ∃ (after : Heap) (error : EvalError), after.frames = base.frames ∧
      (∀ id < base.procedures.size, after.procedures[id]? = base.procedures[id]?) ∧ ∀ slots, ∃ left,
        Form.defineInOrder unbounded base.frames.size bindings (base.newFrame parent slots).2 =
          .error (.error error) (after.newFrame parent left).2 := by
  induction bindings generalizing base with
  | nil => exact absurd malformed (by simp)
  | cons binding bindings ih =>
      obtain ⟨name, e⟩ := binding
      obtain ⟨lambda, others⟩ := List.forall_mem_cons.mp lambdas
      obtain ⟨parts, rfl⟩ := Shape.isLambda_iff.mp lambda
      cases shape : Shape.lambda parts with
      | error error =>
          refine ⟨base, error.report base, rfl, fun _ _ => rfl, fun slots => ⟨slots, ?_⟩⟩
          have same : error.report (base.newFrame parent slots).2 = error.report base :=
            error.report_eq_of_procedures rfl
          simp only [Form.defineInOrder, Bind.bind, EStateM.bind, unbounded_lambdaCode_error shape, same]
      | ok found =>
          obtain ⟨formals, body⟩ := found
          have malformed : ∃ binding ∈ bindings, ¬Shape.IsProcedure binding.2 := by
            obtain ⟨binding, mem, wrong⟩ := malformed
            rcases List.mem_cons.mp mem with rfl | mem
            · exact absurd ⟨parts, formals, body, rfl, shape⟩ wrong
            · exact ⟨binding, mem, wrong⟩
          obtain ⟨after, error, frames, kept, failed⟩ := ih others malformed
            (base.newProcedure (.closure ⟨formals, body, base.frames.size, some name⟩)).2
          refine ⟨after, error, frames, fun id lt => ?_, fun slots => ?_⟩
          · have lt' : id < base.procedures.size + 1 := Nat.lt_succ_of_lt lt
            rw [kept id (by simpa [Heap.newProcedure] using lt')]
            simp [Heap.newProcedure, Array.getElem?_push, Nat.ne_of_lt lt]
          · rw [defineInOrder_cons_ok shape]
            exact failed _

end Call

/-! ## Internal definitions -/

/-- **`let*` and `letrec` are internal definitions**.  Away from the limit on nested calls, each comes to a
result exactly if the body with definitions at its head, in a `let` without bindings, comes to the same
result: the same value or error, and the same heap.  For `let*` no value may be written as a procedure, for
`letrec` all are procedures and the names are distinct.

Where a procedure of a `letrec` is of a wrong shape, both fail with the same error, in heaps that differ in the
slots of the new frame alone.  That frame is abandoned: nothing that was there before leads to it. -/
theorem internal_definitions (bindings : List (String × Value)) (body : List Value)
    (names : ∀ binding ∈ bindings, Literal.ofText binding.1 = .name) (nonempty : body ≠ []) (heap : Heap)
    (env : FrameId) :
    let comesTo (code : Value) (result : EStateM.Result Failure Heap Value) : Prop :=
      ComesTo (fun levels => Call.perform levels (.eval code env)) heap result
    let defined := Form.letCode .letForm [] (bindings.map Form.defineCode ++ body)
    ((∀ binding ∈ bindings, Shape.isLambda binding.2 = false) → ∀ result,
      comesTo (Form.letCode .letStarForm bindings body) result ↔ comesTo defined result) ∧
    ((bindings.map (·.1)).Nodup → (∀ binding ∈ bindings, Shape.IsProcedure binding.2) → ∀ result,
      comesTo (Form.letCode .letrecForm bindings body) result ↔ comesTo defined result) ∧
    ((bindings.map (·.1)).Nodup → (∀ binding ∈ bindings, Shape.isLambda binding.2 = true) →
      (∃ binding ∈ bindings, ¬Shape.IsProcedure binding.2) →
      ∃ (error : EvalError) (after : Heap) (slots slots' : List (String × Value)),
        comesTo (Form.letCode .letrecForm bindings body)
          (.error (.error error) (after.newFrame (some env) slots).2) ∧
        comesTo defined (.error (.error error) (after.newFrame (some env) slots').2) ∧
        after.frames = heap.frames ∧
        (heap.Grounded → ∀ slots,
          ¬(after.newFrame (some env) slots).2.Leads heap.Has (.frame heap.frames.size))) := by
  intro comesTo defined
  have same_result : ∀ {code code' : Value},
      Call.unbounded (.eval code env) heap = Call.unbounded (.eval code' env) heap →
      ∀ result, comesTo code result ↔ comesTo code' result := fun same result => by
    simp only [comesTo, Call.comesTo_iff, same]
  refine ⟨fun values => same_result ?_, fun distinct procedures => same_result ?_,
    fun distinct lambdas malformed => ?_⟩
  · rw [Call.unbounded_letStarCode names nonempty, Call.unbounded_definitions names nonempty]
    simp only [Form.defineInOrder_eq_bindInOrder _ _ values]
  · have lambdas : ∀ binding ∈ bindings, Shape.isLambda binding.2 = true := fun binding mem => by
      obtain ⟨parts, _, _, written, _⟩ := procedures binding mem
      exact Shape.isLambda_iff.mpr ⟨parts, written⟩
    obtain ⟨after, values, _, all, ran⟩ := Call.defineInOrder_procedures procedures heap (some env)
    -- the slots that were declared are all set, and then they are those that are set in an empty frame
    have same_slots : Frame.setAll ((bindings.map (·.1)).zip values) (Form.declared bindings) =
        Frame.setAll ((bindings.map (·.1)).zip values) [] := by
      have all : values.length = (bindings.map (·.1)).length := by rwa [List.length_map]
      have left := Frame.setAll_declared values [] distinct all
      have right := Frame.setAll_of_new values [] distinct
      rw [List.nil_append, List.map_map] at left
      exact left.trans right.symm
    have assigned := (Call.assignInOrder_eq_defineInOrder lambdas heap (Form.declared bindings)).trans (ran _)
    rw [same_slots] at assigned
    rw [Call.unbounded_letrecCode names distinct nonempty, Call.unbounded_definitions names nonempty]
    refine Eq.trans ((bind_of_ok rfl _).trans (bind_of_ok assigned _)) (Eq.symm ?_)
    exact (bind_of_ok rfl _).trans (bind_of_ok (ran []) _)
  · obtain ⟨after, error, frames, kept, ran⟩ :=
      Call.defineInOrder_malformed lambdas malformed heap (some env)
    obtain ⟨slots, left⟩ := ran (Form.declared bindings)
    obtain ⟨slots', right⟩ := ran []
    refine ⟨error, after, slots, slots', ?_, ?_, frames, fun grounded slots leads => ?_⟩
    · refine Call.comesTo_iff.mpr ⟨?_, nofun⟩
      have failed := (Call.assignInOrder_eq_defineInOrder lambdas heap (Form.declared bindings)).trans left
      rw [Call.unbounded_letrecCode names distinct nonempty]
      exact (bind_of_ok rfl _).trans (bind_of_error failed _)
    · refine Call.comesTo_iff.mpr ⟨?_, nofun⟩
      rw [Call.unbounded_definitions names nonempty]
      exact (bind_of_ok rfl _).trans (bind_of_error right _)
    · have unchanged : ∀ f < heap.frames.size,
          (after.newFrame (some env) slots).2.frames[f]? = heap.frames[f]? := fun f lt => by
        rw [← frames] at lt ⊢
        exact Heap.getElem?_frames_newFrame lt (some env) slots
      exact Nat.lt_irrefl _ (grounded.has_of_leads unchanged kept leads)

/-- `(let* ((x 1) (y x) (x 2)) y)` binds `x` twice.  The procedures of
`(letrec ((f (lambda () g)) (g (lambda () f))) (f))` refer to one another.  In
`(letrec ((f (lambda () f)) (g (lambda))) f)` the second procedure has no parameters. -/
theorem internal_definitions_rebound :
    let heap : Heap := ⟨#[⟨none, []⟩], #[]⟩
    let comesTo (code : Value) (result : EStateM.Result Failure Heap Value) : Prop :=
      ComesTo (fun levels => Call.perform levels (.eval code 0)) heap result
    let values : List (String × Value) := [("x", .atom "1"), ("y", .atom "x"), ("x", .atom "2")]
    let procedures : List (String × Value) :=
      [("f", Form.lambdaCode [] [.atom "g"]), ("g", Form.lambdaCode [] [.atom "f"])]
    let malformed : List (String × Value) :=
      [("f", Form.lambdaCode [] [.atom "f"]), ("g", Form.code .lambdaForm [])]
    comesTo (Form.letCode .letForm [] (values.map Form.defineCode ++ [.atom "y"]))
      (.ok (.int 1) ⟨#[⟨none, []⟩, ⟨some 0, [("x", .int 2), ("y", .int 1)]⟩], #[]⟩) ∧
    comesTo (Form.letCode .letForm [] (procedures.map Form.defineCode ++ [.list [.atom "f"]]))
      (.ok (.procedure 1) ⟨#[⟨none, []⟩, ⟨some 0, [("f", .procedure 0), ("g", .procedure 1)]⟩, ⟨some 1, []⟩],
        #[.closure ⟨[], .atom "g", 1, some "f"⟩, .closure ⟨[], .atom "f", 1, some "g"⟩]⟩) ∧
    ∃ error after after',
      comesTo (Form.letCode .letrecForm malformed [.atom "f"]) (.error (.error error) after) ∧
      comesTo (Form.letCode .letForm [] (malformed.map Form.defineCode ++ [.atom "f"]))
        (.error (.error error) after') := by
  intro heap comesTo values procedures malformed
  refine ⟨?_, ?_, ?_⟩
  · have names : ∀ binding ∈ values, Literal.ofText binding.1 = .name := by
      simp only [values, List.forall_mem_cons]
      exact ⟨rfl, rfl, rfl, nofun⟩
    refine ((internal_definitions values [.atom "y"] names nofun heap 0).1 ?_ _).mp ?_
    · decide
    · exact Call.comesTo_of_perform 5 rfl nofun
  · have names : ∀ binding ∈ procedures, Literal.ofText binding.1 = .name := by
      simp only [procedures, List.forall_mem_cons]
      exact ⟨rfl, rfl, nofun⟩
    have shapes : ∀ binding ∈ procedures, Shape.IsProcedure binding.2 := by
      simp only [procedures, List.forall_mem_cons]
      exact ⟨⟨_, _, _, rfl, rfl⟩, ⟨_, _, _, rfl, rfl⟩, nofun⟩
    refine ((internal_definitions procedures [.list [.atom "f"]] names nofun heap 0).2.1 ?_ shapes _).mp ?_
    · decide
    · exact Call.comesTo_of_perform 6 rfl nofun
  · have names : ∀ binding ∈ malformed, Literal.ofText binding.1 = .name := by
      simp only [malformed, List.forall_mem_cons]
      exact ⟨rfl, rfl, nofun⟩
    have wrong : ∃ binding ∈ malformed, ¬Shape.IsProcedure binding.2 := by
      refine ⟨("g", Form.code .lambdaForm []), by simp [malformed], ?_⟩
      rintro ⟨parts, _, _, written, shape⟩
      cases written
      cases shape
    obtain ⟨error, after, slots, slots', left, right, _⟩ :=
      (internal_definitions malformed [.atom "f"] names nofun heap 0).2.2 (by decide) (by decide) wrong
    exact ⟨error, _, _, left, right⟩

end ScopedLisp
