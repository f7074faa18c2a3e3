import Mathlib.Algebra.Group.Nat.Defs
import ScopedLisp.Proofs.Literal.Written
import ScopedLisp.Proofs.Session.Standard

/-!
# ScopedLisp.Proofs.Session.Errors

The errors of a standard session.  Evaluation of an expression ends with a value or with an error
of the language; or it meets an integer of more digits than are read or written, as a literal or in the
place of a procedure.

Where an evaluation ends with an error, a call inside it has this error by itself
(`Discipline.Permits.exists_failing`); so it is enough to look at single steps, whose own errors
`scripted_step` lists.
-/

namespace ScopedLisp

open Text

/-! ## Integers of too many digits -/

/-- A text that is an integer of more digits than are read: a sign, which may be missing, and so many
digits. -/
def Literal.IsOversized (text : String) (digits : Nat) : Prop :=
  (splitSign text.toList).2.all isDecimalDigit = true ∧
    (splitSign text.toList).2.length = digits ∧ Number.digitLimit < digits

theorem Literal.of_ofUnsigned_eq_oversized {negative : Bool} {body : List Char} {digits : Nat}
    (h : ofUnsigned negative body = .oversized digits) :
    body.all isDecimalDigit = true ∧ body.length = digits ∧ Number.digitLimit < digits := by
  unfold ofUnsigned at h
  split at h
  next digitsOnly =>
    split at h
    next many =>
      cases h
      exact ⟨(Bool.and_eq_true_iff.mp digitsOnly).2, rfl, many⟩
    · cases h
  · split at h <;> cases h

theorem Literal.isOversized_of_ofText {text : String} {digits : Nat}
    (h : ofText text = .oversized digits) : IsOversized text digits := by
  unfold ofText at h
  split at h
  · cases h
  split at h
  · cases h
  · exact of_ofUnsigned_eq_oversized h

/-- Code mentions the texts of its atoms. -/
inductive Value.Mentions (text : String) : Value → Prop where
  | atom : Mentions text (.atom text)
  | item {items : List Value} {e : Value} : e ∈ items → Mentions text e → Mentions text (.list items)

/-- A call meets an integer of too many digits by itself, and has an error because of it: as the literal
that it evaluates, as an atom in the form that it runs, or as the value that it applies. -/
inductive Call.MeetsOversized : Call → EvalError → Prop where
  | literal {text : String} {digits : Nat} {env : FrameId} : Literal.IsOversized text digits →
      MeetsOversized (.eval (.atom text) env) (.oversizedLiteral digits)
  | inForm {keyword : Keyword} {operands : List Value} {e : Value} {text : String} {digits : Nat}
      {env : FrameId} : e ∈ operands → e.Mentions text → Literal.IsOversized text digits →
      MeetsOversized (.form keyword operands env) (.oversizedLiteral digits)
  | applied {i : Int} {args : List Value} {env : FrameId} :
      10 ^ Number.digitLimit ≤ i.natAbs → MeetsOversized (.apply (.int i) args env) .unwritable

/-- Is this the error of an integer of too many digits? -/
def EvalError.isDigitLimit : EvalError → Bool
  | .oversizedLiteral _ | .unwritable => true
  | _ => false

theorem Call.MeetsOversized.isDigitLimit {c : Call} {error : EvalError} (h : c.MeetsOversized error) :
    error.isDigitLimit = true := by
  cases h <;> rfl

theorem EvalError.kind_of_isDigitLimit {error : EvalError} (h : error.isDigitLimit = true) :
    error.kind = "ValueError" := by
  cases error with
  | oversizedLiteral | unwritable => rfl
  | _ => cases h

/-- The errors that a call may have by itself. -/
def Call.Refuses (c : Call) (error : EvalError) : Prop :=
  error.isOfLanguage = true ∨ c.MeetsOversized error

/-! ## Expressions -/

namespace Value

variable {texts texts' : String → Prop} {v : Value}

theorem Written.mono (h : v.Written texts) (imp : ∀ text, texts text → texts' text) :
    v.Written texts' := by
  induction h with
  | atom h => exact .atom (imp _ h)
  | list _ ih => exact .list ih

/-- Code is written with the texts that it mentions. -/
theorem Written.mentions (h : v.Written texts) : v.Written fun text => v.Mentions text := by
  induction h with
  | atom _ => exact .atom .atom
  | list _ ih => exact .list fun e mem => (ih e mem).mono fun text => .item mem

/-- Written code is an expression. -/
theorem Written.toExpr_ok (h : v.Written texts) : ∃ e, v.toExpr = .ok e := by
  induction h with
  | @atom text _ => exact ⟨.atom text, rfl⟩
  | @list items _ ih =>
      suffices ∃ es, toExprs items = .ok es by
        obtain ⟨es, h⟩ := this
        exact ⟨.list es, by simp [toExpr, h, Except.map]⟩
      clear * - ih
      induction items with
      | nil => exact ⟨[], rfl⟩
      | cons e es ih' =>
          obtain ⟨ih_e, ih_es⟩ := List.forall_mem_cons.mp ih
          obtain ⟨x, hx⟩ := ih_e
          obtain ⟨xs, hxs⟩ := ih' ih_es
          exact ⟨x :: xs, by simp [toExprs, hx, hxs, Except.map]⟩

/-- A value of the language is no list. -/
theorem OfLanguage.items?_eq_none (h : v.OfLanguage) : v.items? = none := by
  cases v with
  | list items | array items => exact h.elim
  | _ => rfl

/-- Only an integer of too many digits cannot be shown. -/
theorem OfLanguage.display?_error (h : v.OfLanguage) {heap : Heap} {error : EvalError}
    (herror : v.display? heap = .error error) :
    error = .unwritable ∧ ∃ i : Int, v = .int i ∧ 10 ^ Number.digitLimit ≤ i.natAbs := by
  unfold display? guarded at herror
  split at herror
  next unwritable =>
    cases herror
    refine ⟨rfl, ?_⟩
    cases v with
    | number n =>
        cases n with
        | int i => exact ⟨i, rfl, Number.isUnwritable_iff.mp unwritable⟩
        | float x => cases unwritable
    | list items | array items => exact h.elim
    | _ => cases unwritable
  · cases herror

end Value

/-! ## Own errors -/

variable {codes : CodeSet} {heap : Heap}

/-- An error of shape about expressions is one of the language, or it refuses an integer literal. -/
theorem ShapeError.report_of_within {texts : String → Prop} {begin_mem : texts "begin"}
    {error : ShapeError Value} (h : Shape.ErrorWithin (.written texts begin_mem) error) :
    (error.report heap).isOfLanguage = true ∨
    ∃ text digits, error.report heap = .oversizedLiteral digits ∧ texts text ∧
      Literal.IsOversized text digits := by
  unfold ShapeError.report
  cases hfound : error.found? with
  | none =>
      cases error with
      | oversizedLiteral digits =>
          obtain ⟨text, mem, eq⟩ := h.oversized digits rfl
          cases mem with
          | atom mem => exact Or.inr ⟨text, digits, rfl, mem, Literal.isOversized_of_ofText eq⟩
      | _ => exact Or.inl rfl
  | some found =>
      obtain ⟨e, he⟩ := (h.found found hfound).toExpr_ok
      simp only [Value.describe, he]
      cases error <;> first | exact Or.inl rfl | cases hfound

/-- The own errors of a step that is permitted in the language. -/
theorem scripted_step {base : Heap} (levels : Nat) (c : Call) (heap : Heap)
    (kept : Territory.language.Kept base heap)
    (admits : (Territory.language.discipline base).Admits heap c) :
    Scripted c.Refuses True heap fun call => Call.step levels call c := by
  have language : ∀ {c : Call} (error : EvalError), error.isOfLanguage = true → c.Refuses error :=
    fun _ h => Or.inl h
  cases c with
  | eval code env =>
      cases admits.1 with
      | @atom text _ =>
          refine Scripted.evalAtom language fun digits h => Or.inr (.literal ?_)
          exact Literal.isOversized_of_ofText h
      | @list items _ => exact Scripted.evalItems language items
  | form keyword operands env =>
      -- of all texts only those that the operands mention count
      let texts : String → Prop := fun text => text = "begin" ∨ ∃ e ∈ operands, e.Mentions text
      let codes : CodeSet := .written texts (Or.inl rfl)
      have code : ∀ e ∈ operands, codes.mem e := fun e mem =>
        (admits.1 e mem).mentions.mono fun text h => Or.inr ⟨e, mem, h⟩
      refine Scripted.form language ?_ code levels keyword
      intro error h heap
      refine (ShapeError.report_of_within h).imp_right fun ⟨text, digits, eq, mem, oversized⟩ => ?_
      rw [eq]
      rcases mem with rfl | ⟨e, mem, mentions⟩
      · exact absurd oversized.1 (by decide)
      · exact .inForm mem mentions oversized
  | apply procedure args env =>
      have hostless (name : String) (respond : List Value → HostRequest) :
          heap.procedure? procedure ≠ some (.host name respond) :=
        (Territory.language.discipline base).hostless kept admits.1
      obtain ⟨⟨hprocedure, _⟩, hargs, _⟩ := admits
      refine Scripted.applyProcedure language hostless ?_ ?_
      · intro p error h
        refine Or.inl (Primitive.isOfLanguage_of_apply (fun arg mem => ?_) h)
        exact (hargs arg mem).1.items?_eq_none
      · intro error h
        obtain ⟨rfl, i, eq, digits⟩ := hprocedure.display?_error h
        cases eq
        exact Or.inr (.applied digits)
  | nested inner => exact Scripted.call inner

/-! ## Sessions -/

/-- The classes of the errors that evaluation reports. -/
def EvalError.languageKinds : List String :=
  ["UnboundVariable", "MalformedForm", "InvalidBindingForm", "LambicTypeError", "ArityError",
    "DivisionByZero", "NumericOverflow", "RecursionDepthExceeded"]

theorem EvalError.kind_mem_languageKinds {error : EvalError} (h : error.isOfLanguage = true) :
    error.kind ∈ languageKinds := by
  cases error with
  | shape error =>
      simp only [kind]
      split <;> decide
  | oversizedLiteral | unwritable | tooDeepToWrite | notExpression | changeableKey | limitTooLarge
  | host => cases h
  | _ => simp [kind, languageKinds]

/-- How evaluation fails that is permitted in the language. -/
theorem error_of_permits {run : Call.Run} (permits : Territory.language.Permits run)
    {error : EvalError} {after : Heap} (h : run.result = .error (.error error) after) :
    error.isOfLanguage = true ∨
      ∃ inner, run.Involves inner ∧ inner.call.MeetsOversized error := by
  obtain ⟨inner, involves, refuses⟩ :=
    permits.exists_failing (Territory.language.bounded _) scripted_step h
  exact refuses.imp_right fun meets => ⟨inner, involves, meets⟩

/-- **Closed errors**: in a session that begins with a standard root frame and evaluates source texts,
evaluation of an expression returns a value or ends with an error of one of the eight classes of the
language; or with a `ValueError`, because some call inside it meets an integer of too many digits. -/
theorem session_errors {interpreter : Interpreter} {start session : Session}
    (begins : interpreter.Begins start) (reached : interpreter.Reaches start session) (e : Expr)
    {env : FrameId} (lt : env < session.heap.frames.size) :
    (∃ value after, Step.evaluate e.toValue env session = .ok value after) ∨
    ∃ error after, Step.evaluate e.toValue env session = .error (.evaluation error) after ∧
      (error.kind ∈ EvalError.languageKinds ∨
        error.kind = "ValueError" ∧ ∃ run : Call.Run,
          Call.Run.Involves ⟨session.depthLimit, .eval e.toValue env, session.heap⟩ run ∧
          run.call.MeetsOversized error) := by
  simp only [Step.evaluate]
  cases hp : Call.perform session.depthLimit (.eval e.toValue env) session.heap with
  | ok value heap => exact Or.inl ⟨value, _, rfl⟩
  | error failure heap =>
      refine Or.inr ?_
      cases failure with
      | outOfDepth =>
          have language : (EvalError.depthExceeded session.depthLimit).isOfLanguage = true := rfl
          exact ⟨_, _, rfl, Or.inl (EvalError.kind_mem_languageKinds language)⟩
      | error error =>
          refine ⟨_, _, rfl, ?_⟩
          have permits := reached.permits_language begins e lt
          rcases error_of_permits permits hp with language | ⟨inner, involves, meets⟩
          · exact Or.inl (EvalError.kind_mem_languageKinds language)
          · have kind := EvalError.kind_of_isDigitLimit meets.isDigitLimit
            exact Or.inr ⟨kind, inner, involves, meets⟩

/-- An integer is applied, which is none of the procedures. -/
theorem session_errors_applied :
    let interpreter : Interpreter := ⟨0⟩
    let start : Session := { Session.start with heap := .standard }
    let e : Expr := .list [.atom "3", .atom "4"]
    interpreter.Begins start ∧ interpreter.Reaches start start ∧
      interpreter.root < start.heap.frames.size ∧
      ∃ error after,
        Step.evaluate e.toValue interpreter.root start = .error (.evaluation error) after ∧
        error.kind ∈ EvalError.languageKinds := by
  intro interpreter start e
  have begins : interpreter.Begins start := ⟨rfl, rfl⟩
  have kind : EStateM.Result.casesOn (motive := fun _ => String)
      (Step.evaluate e.toValue interpreter.root start)
      (fun _ _ => "") (fun error _ => error.kind) = "LambicTypeError" := by
    decide +kernel
  rcases session_errors begins .start e begins.lt with
    ⟨value, after, h⟩ | ⟨error, after, h, inLanguage | ⟨limit, _⟩⟩
  · rw [h] at kind
    have other : "" = "LambicTypeError" := kind
    exact absurd other (by decide)
  · exact ⟨begins, .start, begins.lt, error, after, h, inLanguage⟩
  · rw [h] at kind
    exact absurd (limit.symm.trans kind) (by decide)

end ScopedLisp
