import ScopedLisp.Proofs.Evaluation.InternalDefinitions
import ScopedLisp.Proofs.Form.Grammar
import ScopedLisp.Proofs.Form.Pairs

/-!
# ScopedLisp.Proofs.Evaluation.ProcedureDefinition

A procedure can be defined in the form of a call to it.  `(define (f p ...) e ...)` means the same as
`(define f (lambda (p ...) e ...))`, of any shape: where one of them fails, both do, over the same part of the form.

The two are checked apart, each in its own words.  `ShapeError.Akin` relates errors that differ in these words
alone; the checks of names, parameters and bodies agree up to it, whatever words they are given.
-/

namespace ScopedLisp

open Evaluation

/-! ## Errors in other words -/

/-- Two errors say the same of the same code, and may name the form around it differently. -/
inductive ShapeError.Akin : ShapeError Value → ShapeError Value → Prop where
  | notSymbol (what what' : String) (found : Value) : Akin (.notSymbol what found) (.notSymbol what' found)
  | duplicateParameter (form form' : String) (found : Value) :
      Akin (.duplicateParameter form found) (.duplicateParameter form' found)
  | withoutBody (form form' : String) : Akin (.withoutBody form) (.withoutBody form')
  | oversizedLiteral (digits : Nat) : Akin (.oversizedLiteral digits) (.oversizedLiteral digits)

/-- Such errors are reported as errors of one class. -/
theorem ShapeError.Akin.kind_report {error error' : ShapeError Value} (akin : error.Akin error') (heap : Heap) :
    (error.report heap).kind = (error'.report heap).kind := by
  cases akin with
  | notSymbol | duplicateParameter =>
      simp only [report, found?]
      split <;> rfl
  | withoutBody | oversizedLiteral => rfl

/-- Where the one fails, so does the other. -/
theorem Agree.exists_error {ε ε' α β : Type} {error : ε → ε' → Prop} {value : α → β → Prop}
    {x : Except ε α} {e' : ε'} (h : Agree error value x (.error e')) : ∃ e, x = .error e ∧ error e e' := by
  cases h with
  | error h => exact ⟨_, rfl, h⟩

namespace Shape

/-- The error does not depend on which name was wanted. -/
theorem agree_nameOf (what what' : String) (e : Value) :
    Agree ShapeError.Akin Eq (nameOf what e) (nameOf what' e) := by
  unfold nameOf
  split
  · split
    · exact .ok rfl
    · exact .error (.oversizedLiteral _)
    · exact .error (.notSymbol what what' _)
  · exact .error (.notSymbol what what' e)

theorem agree_namesOf (what what' : String) (es : List Value) :
    Agree ShapeError.Akin Eq (namesOf what es) (namesOf what' es) := by
  induction es with
  | nil => exact .ok rfl
  | cons e es ih =>
      refine (agree_nameOf what what' e).bind fun name _ same => ?_
      cases same
      exact ih.bind fun names _ same => .ok (congrArg _ same)

theorem agree_formals (form form' : String) (es : List Value) :
    Agree ShapeError.Akin Eq (formals form (.list es)) (formals form' (.list es)) := by
  refine (agree_namesOf _ _ es).bind fun names _ same => ?_
  cases same
  split
  · exact .ok rfl
  · exact .error (.duplicateParameter form form' _)

theorem agree_body (form form' : String) (forms : List Value) :
    Agree ShapeError.Akin Eq (body form forms) (body form' forms) := by
  rcases forms with _ | ⟨e, _ | _⟩
  · exact .error (.withoutBody form form')
  · exact .ok rfl
  · exact .ok rfl

/-- The check of a procedure in the form of a call: its name is checked, and then the rest as a `lambda` is. -/
theorem agree_definition (name : String) (parameters forms : List Value) :
    Agree ShapeError.Akin Eq (definition (.list (.atom name :: parameters) :: forms)) (do
      let name ← nameOf "define name" (.atom name)
      let (formals, body) ← lambda (.list parameters :: forms)
      return .procedure name formals body) := by
  refine (agree_nameOf _ _ _).bind fun name _ same => ?_
  cases same
  simp only [lambda, bind_assoc, pure_bind]
  refine (agree_formals _ _ parameters).bind fun names _ same => ?_
  cases same
  exact (agree_body _ _ forms).bind fun expr _ same => .ok (congrArg _ same)

end Shape

/-! ## Both definitions -/

namespace Form

/-- The definition of a procedure in the form of a call to it. -/
def procedureCode (name : String) (parameters body : List Value) : Value :=
  code .defineForm (.list (.atom name :: parameters) :: body)

/-- The definition of a name as a procedure. -/
def lambdaDefinitionCode (name : String) (parameters body : List Value) : Value :=
  defineCode (name, code .lambdaForm (.list parameters :: body))

end Form

namespace Call

variable {name : String} {parameters forms : List Value}

/-- A form that is refused changes nothing. -/
theorem unbounded_define_error {operands : List Value} {error : ShapeError Value}
    (refused : Shape.definition operands = .error error) (env : FrameId) (heap : Heap) :
    unbounded (.eval (Form.code .defineForm operands) env) heap = .error (.error (error.report heap)) heap := by
  rw [unbounded_code, unbounded_define, refused]
  rfl

theorem unbounded_procedureCode_ok {names : List String} {body : Value}
    (shape : Shape.definition (.list (.atom name :: parameters) :: forms) = .ok (.procedure name names body))
    (env : FrameId) (heap : Heap) :
    unbounded (.eval (Form.procedureCode name parameters forms) env) heap =
      .ok .nil ((heap.newProcedure (.closure ⟨names, body, env, some name⟩)).2.write env name
        (.procedure heap.procedures.size)) := by
  rw [Form.procedureCode, unbounded_code, unbounded_define, shape]
  rfl

/-- The closure that the `lambda` makes has no name, and takes that of the definition before it is bound. -/
theorem unbounded_lambdaDefinitionCode_ok {names : List String} {body : Value}
    (is_name : Literal.ofText name = .name) (shape : Shape.lambda (.list parameters :: forms) = .ok (names, body))
    (env : FrameId) (heap : Heap) :
    unbounded (.eval (Form.lambdaDefinitionCode name parameters forms) env) heap =
      .ok .nil ((heap.newProcedure (.closure ⟨names, body, env, some name⟩)).2.write env name
        (.procedure heap.procedures.size)) := by
  have made := unbounded_lambdaCode_ok shape env heap
  have named := heap.nameClosure_newProcedure ⟨names, body, env, none⟩ name
  rw [Form.lambdaDefinitionCode, unbounded_defineCode is_name]
  refine (bind_of_ok made _).trans ?_
  rw [← named]
  rfl

theorem unbounded_lambdaDefinitionCode_error {error : ShapeError Value}
    (is_name : Literal.ofText name = .name) (shape : Shape.lambda (.list parameters :: forms) = .error error)
    (env : FrameId) (heap : Heap) :
    unbounded (.eval (Form.lambdaDefinitionCode name parameters forms) env) heap =
      .error (.error (error.report heap)) heap := by
  rw [Form.lambdaDefinitionCode, unbounded_defineCode is_name]
  exact bind_of_error (unbounded_lambdaCode_error shape env heap) _

end Call

/-- **The definition of a procedure in the form of a call is sugar**: away from the limit on nested calls, it
comes to what the definition of its name as a `lambda` comes to.

* If the name and the parameters are symbols, no parameter is repeated and there is a body, both answer `nil`.
  Both leave the heap with one closure more, which has this name, the parameters, the body and the frame at hand,
  and bind it to the name in that frame.
* Otherwise both end with errors of one class, and the heap is as it was. -/
theorem procedure_definition_is_sugar (name : String) (parameters body : List Value) (heap : Heap)
    (env : FrameId) :
    let comesTo (code : Value) (result : EStateM.Result Failure Heap Value) : Prop :=
      ComesTo (fun levels => Call.perform levels (.eval code env)) heap result
    let sugar := Form.procedureCode name parameters body
    let plain := Form.lambdaDefinitionCode name parameters body
    (∃ names : List String, parameters = names.map .atom ∧
      (∀ symbol ∈ name :: names, Literal.ofText symbol = .name) ∧ names.Nodup ∧ body ≠ [] ∧
      let closure : Closure := ⟨names, Form.sequence body, env, some name⟩
      let after := (heap.newProcedure (.closure closure)).2.write env name (.procedure heap.procedures.size)
      comesTo sugar (.ok .nil after) ∧ comesTo plain (.ok .nil after)) ∨
    ∃ error error' : EvalError, error.kind = error'.kind ∧
      comesTo sugar (.error (.error error) heap) ∧ comesTo plain (.error (.error error') heap) := by
  intro comesTo sugar plain
  have fails : ∀ {e e' : ShapeError Value}, e.Akin e' →
      Call.unbounded (.eval sugar env) heap = .error (.error (e.report heap)) heap →
      Call.unbounded (.eval plain env) heap = .error (.error (e'.report heap)) heap →
      ∃ error error' : EvalError, error.kind = error'.kind ∧
        comesTo sugar (.error (.error error) heap) ∧ comesTo plain (.error (.error error') heap) :=
    fun akin left right => ⟨_, _, akin.kind_report heap, Call.comesTo_iff.mpr ⟨left, settled_error _ heap⟩,
      Call.comesTo_iff.mpr ⟨right, settled_error _ heap⟩⟩
  have agree := Shape.agree_definition name parameters body
  cases first : Shape.nameOf "define name" (.atom name) with
  | error e' =>
      -- the name is refused
      rw [first] at agree
      obtain ⟨e, checked, akin⟩ := agree.exists_error
      have refused : Shape.definition [.atom name, Form.code .lambdaForm (.list parameters :: body)] =
          .error e' := by
        simp only [Shape.definition, first]
        rfl
      exact Or.inr (fails akin (Call.unbounded_define_error checked env heap)
        (Call.unbounded_define_error refused env heap))
  | ok found =>
      obtain ⟨same, is_name⟩ := Shape.nameOf_eq_ok_iff.mp first
      cases same
      rw [first] at agree
      cases shape : Shape.lambda (.list parameters :: body) with
      | error e' =>
          -- the parameters or the body are refused
          rw [shape] at agree
          obtain ⟨e, checked, akin⟩ := agree.exists_error
          exact Or.inr (fails akin (Call.unbounded_define_error checked env heap)
            (Call.unbounded_lambdaDefinitionCode_error is_name shape env heap))
      | ok parts =>
          obtain ⟨names, expr⟩ := parts
          obtain ⟨forms, eq, are_names, distinct, nonempty, rfl⟩ := Shape.lambda_eq_ok_iff.mp shape
          cases eq
          have checked := Shape.definition_header is_name are_names distinct nonempty
          refine Or.inl ⟨names, rfl, List.forall_mem_cons.mpr ⟨is_name, are_names⟩, distinct, nonempty, ?_, ?_⟩
          · exact Call.comesTo_iff.mpr ⟨Call.unbounded_procedureCode_ok checked env heap, settled_ok _ _⟩
          · exact Call.comesTo_iff.mpr
              ⟨Call.unbounded_lambdaDefinitionCode_ok is_name shape env heap, settled_ok _ _⟩

end ScopedLisp
