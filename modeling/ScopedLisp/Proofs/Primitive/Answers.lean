import ScopedLisp.Primitive.Apply

/-!
# ScopedLisp.Proofs.Primitive.Answers

How the primitives can answer: with a scalar, which is a number, a boolean or `nil`
(`scalar_apply`), or, as long as no argument is a list, with an error of the language
(`isOfLanguage_of_apply`).
-/

namespace ScopedLisp

/-- A number, a boolean or `nil`. -/
def Value.Scalar : Value → Prop
  | .number _ | .bool _ => True
  | .symbol name => name = "nil"
  | _ => False

/-- A value that is no list fails to be written only if it is an integer. -/
theorem Value.display?_ok {v : Value} (flat : v.items? = none) (notInt : ∀ i, v ≠ .number (.int i))
    (heap : Heap) : v.display? heap = .ok (v.display heap) := by
  have writable : v.isUnwritable = false := by
    cases v with
    | number n =>
        cases n with
        | int i => exact absurd rfl (notInt i)
        | float x => rfl
    | list items | array items => cases flat
    | _ => rfl
  simp [display?, guarded, writable]

namespace Primitive

variable {heap : Heap} {p : Primitive} {args : List Value}

/-! ## Values -/

/-- A number is a scalar. -/
theorem scalar_of_map {ε : Type} {x : Except ε Number} {v : Value}
    (h : x.map Value.number = .ok v) : v.Scalar := by
  cases x with
  | ok n =>
      cases h
      trivial
  | error error => cases h

/-- Numbers answer with numbers and truth values. -/
theorem scalar_onNumbers {xs : List Number} {v : Value} (h : p.onNumbers xs = .ok v) : v.Scalar := by
  unfold onNumbers at h
  split at h
  all_goals first
    | exact scalar_of_map h
    | cases h; trivial

/-- The division of integers answers with an integer. -/
theorem scalar_divideIntegers {a b : Int} {v : Value} (h : p.divideIntegers a b = .ok v) :
    v.Scalar := by
  unfold divideIntegers at h
  split at h
  · cases h
  · split at h <;> cases h <;> trivial

/-- Predicates answer with truth values. -/
theorem scalar_onValues (args : List Value) : (p.onValues args).Scalar := by
  unfold onValues
  split <;> trivial

/-! ## Errors of the arguments -/

/-- Arguments that are no lists and no numbers are reported as such: their texts can be written. -/
theorem numbers_error {error : EvalError} (flat : ∀ arg ∈ args, arg.items? = none)
    (h : numbers heap p args = .error error) : error.isOfLanguage = true := by
  induction args generalizing error with
  | nil => cases h
  | cons arg args ih =>
      obtain ⟨flat_arg, flat_args⟩ := List.forall_mem_cons.mp flat
      unfold numbers at h
      split at h
      · cases h
      next n vs eq =>
        cases eq
        cases hrest : numbers heap p args with
        | ok ns => rw [hrest] at h; cases h
        | error error' =>
            rw [hrest] at h
            cases h
            exact ih flat_args hrest
      next v vs notNumber eq =>
        cases eq
        rw [Value.display?_ok flat_arg (fun i eq => notNumber _ eq)] at h
        cases h
        rfl

/-- Arguments that are no lists and no integers are reported as such: their texts can be written. -/
theorem integers_error {error : EvalError} (flat : ∀ arg ∈ args, arg.items? = none)
    (h : integers heap p args = .error error) : error.isOfLanguage = true := by
  induction args generalizing error with
  | nil => cases h
  | cons arg args ih =>
      obtain ⟨flat_arg, flat_args⟩ := List.forall_mem_cons.mp flat
      unfold integers at h
      split at h
      · cases h
      next i vs eq =>
        cases eq
        cases hrest : integers heap p args with
        | ok ns => rw [hrest] at h; cases h
        | error error' =>
            rw [hrest] at h
            cases h
            exact ih flat_args hrest
      next v vs notInteger eq =>
        cases eq
        rw [Value.display?_ok flat_arg (fun i eq => notInteger i eq)] at h
        cases h
        rfl

/-! ## Answers -/

/-- An answer: a scalar, or an error that is `fine`. -/
def Answers (fine : EvalError → Prop) : Except EvalError Value → Prop
  | .ok v => v.Scalar
  | .error error => fine error

variable {fine : EvalError → Prop}

/-- What follows a fine error or an answer is an answer. -/
theorem answers_bind {α : Type} {x : Except EvalError α} {next : α → Except EvalError Value}
    (hx : ∀ error, x = .error error → fine error) (hnext : ∀ a, Answers fine (next a)) :
    Answers fine (x >>= next) := by
  cases x with
  | ok a => exact hnext a
  | error error => exact hx error rfl

variable (language : ∀ error : EvalError, error.isOfLanguage = true → fine error)

include language

/-- The division of integers answers with an integer, or with the error of the zero divisor. -/
theorem answers_divideIntegers (a b : Int) : Answers fine (p.divideIntegers a b) := by
  cases h : p.divideIntegers a b with
  | ok v => exact scalar_divideIntegers h
  | error error =>
      unfold divideIntegers at h
      split at h
      · cases h
        exact language _ rfl
      · split at h <;> cases h

/-- Arithmetic answers with a scalar, or with an error that names the primitive. -/
theorem answers_onNumbers (xs : List Number) :
    Answers fine ((p.onNumbers xs).mapError p.arithmeticError) := by
  cases h : p.onNumbers xs with
  | ok v => exact scalar_onNumbers h
  | error failure => cases failure <;> exact language _ rfl

/-- A primitive answers with a scalar or with an error of the language, or it finds an argument of a
wrong kind. -/
theorem answers_apply (hnumbers : ∀ error, numbers heap p args = .error error → fine error)
    (hintegers : ∀ error, integers heap p args = .error error → fine error) :
    Answers fine (p.apply heap args) := by
  have onNumbers :
      Answers fine (do (p.onNumbers (← numbers heap p args)).mapError p.arithmeticError) :=
    answers_bind hnumbers fun ns => answers_onNumbers language ns
  refine answers_bind (fun error h => ?_) fun _ => ?_
  · unfold checkCount at h
    split at h <;> cases h
    exact language _ rfl
  · cases p with
    | quotient | remainder | modulo =>
        refine answers_bind hintegers fun is => ?_
        split
        · exact answers_divideIntegers language _ _
        · rfl
    | not | same | isNumber | isBoolean | isSymbol | isProcedure => exact scalar_onValues args
    | _ => exact onNumbers

omit language

/-- What a primitive answers with is a scalar. -/
theorem scalar_apply {v : Value} (h : p.apply heap args = .ok v) : v.Scalar := by
  have answers : Answers (fun _ => True) (p.apply heap args) :=
    answers_apply (fun _ _ => trivial) (fun _ _ => trivial) fun _ _ => trivial
  rw [h] at answers
  exact answers

/-- Applied to arguments that are no lists, a primitive fails with errors of the language only. -/
theorem isOfLanguage_of_apply {error : EvalError} (flat : ∀ arg ∈ args, arg.items? = none)
    (h : p.apply heap args = .error error) : error.isOfLanguage = true := by
  have answers : Answers (·.isOfLanguage = true) (p.apply heap args) :=
    answers_apply (fun _ h => h) (fun _ h => numbers_error flat h) fun _ h => integers_error flat h
  rw [h] at answers
  exact answers

end Primitive

end ScopedLisp
