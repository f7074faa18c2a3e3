import ScopedLisp.Proofs.Evaluation.InternalDefinitions
import ScopedLisp.Proofs.Form.Grammar

/-!
# ScopedLisp.Proofs.Evaluation.Clauses

`cond` and `and` put together from `if`, `begin` and `or`.

```
(and e1 e2 ... ek)               (if e1 (if e2 ... ek ... #f) #f)
(cond (t b ...) clause ...)      (if t (begin b ...) (cond clause ...))
(cond (t) clause ...)            (or t (cond clause ...))
(cond (else b ...))              (begin b ...)
(cond)                           (if #f #f)
```

The clauses of a `cond` are looked at one after the other, so a malformed one is an error only where the
tests before it have all been false (`Form.AllFalse`).  Otherwise it makes no difference, and neither do the
clauses after it.
-/

namespace ScopedLisp

open Evaluation

namespace Value

/-- Only `#f` is false. -/
theorem isTrue_eq_false_iff {v : Value} : v.isTrue = false ↔ v = .bool false := by
  cases v with
  | bool b => simp [isTrue]
  | _ => simp [isTrue]

end Value

namespace Form

/-! ## Clauses -/

/-- A clause that is no list with a test, or an `else` clause that is not the last or has no body; `rest` are
the clauses that follow it. -/
inductive MalformedClause : (clause : Value) → (rest : List Value) → Prop where
  | withoutTest {clause : Value} {rest : List Value} : (∀ test body, clause ≠ .list (test :: body)) →
      MalformedClause clause rest
  | elseNotLast (body : List Value) (next : Value) (rest : List Value) :
      MalformedClause (.list (.atom "else" :: body)) (next :: rest)
  | elseWithoutBody (rest : List Value) : MalformedClause (.list [.atom "else"]) rest

/-- A row of clauses in which none is malformed. -/
inductive Clauses : List Value → Prop where
  | none : Clauses []
  | otherwise {body : List Value} : body ≠ [] → Clauses [.list (.atom "else" :: body)]
  | test {test : Value} {body rest : List Value} : test ≠ .atom "else" → Clauses rest →
      Clauses (.list (test :: body) :: rest)

/-- What a row of clauses is short for. -/
def condExpansion : List Value → Value
  | [] => code .ifForm [.atom "#f", .atom "#f"]
  | .list (test :: body) :: rest =>
    if Shape.isElse test then code .beginForm body
    else if body.isEmpty then code .orForm [test, condExpansion rest]
    else code .ifForm [test, code .beginForm body, condExpansion rest]
  | _ :: _ => .nothing

/-- What a conjunction is short for. -/
def andExpansion (e : Value) : List Value → Value
  | [] => e
  | e' :: es => code .ifForm [e, andExpansion e' es, .atom "#f"]

/-- The tests of some clauses are evaluated one after the other, and all come to `#f`; `comesTo` says what code
comes to in a heap. -/
inductive AllFalse (comesTo : Value → Heap → EStateM.Result Failure Heap Value → Prop) :
    List Value → Heap → Heap → Prop where
  | none (heap : Heap) : AllFalse comesTo [] heap heap
  | test {test : Value} {body rest : List Value} {heap mid after : Heap} :
      comesTo test heap (.ok (.bool false) mid) → AllFalse comesTo rest mid after →
      AllFalse comesTo (.list (test :: body) :: rest) heap after

theorem isElse_iff {test : Value} : Shape.isElse test = true ↔ test = .atom "else" := by
  cases test with
  | atom text => simp [Shape.isElse]
  | _ => simp [Shape.isElse]

theorem isElse_of_ne {test : Value} (ne : test ≠ .atom "else") : Shape.isElse test = false :=
  Bool.eq_false_iff.mpr fun h => ne (isElse_iff.mp h)

/-- What comes to `#f` one way may do so another way. -/
theorem AllFalse.mono {comesTo comesTo' : Value → Heap → EStateM.Result Failure Heap Value → Prop}
    {clauses : List Value} {heap after : Heap} (allFalse : AllFalse comesTo clauses heap after)
    (imp : ∀ {test heap mid}, comesTo test heap (.ok (.bool false) mid) → comesTo' test heap (.ok (.bool false) mid)) :
    AllFalse comesTo' clauses heap after := by
  induction allFalse with
  | none heap => exact .none heap
  | test untrue _ ih => exact .test (imp untrue) ih

/-- A clause is malformed, or it is the last one and has a body, or it has a test that is evaluated. -/
theorem malformedClause_or (clause : Value) (rest : List Value) :
    MalformedClause clause rest ∨ (∃ body, body ≠ [] ∧ clause = .list (.atom "else" :: body) ∧ rest = []) ∨
      ∃ test body, test ≠ .atom "else" ∧ clause = .list (test :: body) := by
  by_cases h : ∃ test body, clause = .list (test :: body)
  · obtain ⟨test, body, rfl⟩ := h
    by_cases is_else : test = .atom "else"
    · subst is_else
      rcases body with _ | ⟨e, es⟩
      · exact Or.inl (.elseWithoutBody rest)
      · rcases rest with _ | ⟨next, rest⟩
        · exact Or.inr (Or.inl ⟨e :: es, List.cons_ne_nil e es, rfl, rfl⟩)
        · exact Or.inl (.elseNotLast (e :: es) next rest)
    · exact Or.inr (Or.inr ⟨test, body, is_else, rfl⟩)
  · exact Or.inl (.withoutTest fun test body eq => h ⟨test, body, eq⟩)

/-- A clause with a test of its own is well formed wherever it stands. -/
theorem not_malformedClause_of_test {test : Value} (ne : test ≠ .atom "else") (body rest : List Value) :
    ¬MalformedClause (.list (test :: body)) rest := by
  intro malformed
  cases malformed with
  | withoutTest without => exact without test body rfl
  | elseNotLast | elseWithoutBody => exact ne rfl

/-- The last clause may have no test, if it has a body. -/
theorem not_malformedClause_else {body : List Value} (nonempty : body ≠ []) :
    ¬MalformedClause (.list (.atom "else" :: body)) [] := by
  intro malformed
  cases malformed with
  | withoutTest without => exact without _ body rfl
  | elseWithoutBody => exact nonempty rfl

/-- Clauses none of which is malformed, given those that follow it. -/
theorem clauses_iff {clauses : List Value} : Clauses clauses ↔
    ∀ before clause rest, clauses = before ++ clause :: rest → ¬MalformedClause clause rest := by
  constructor
  · intro proper
    induction proper with
    | none => exact fun before clause rest eq => absurd eq.symm (by simp)
    | otherwise nonempty =>
        intro before clause rest eq
        rcases before with _ | ⟨first, before⟩
        · cases eq
          exact not_malformedClause_else nonempty
        · simp at eq
    | test ne _ ih =>
        intro before clause rest eq
        rcases before with _ | ⟨first, before⟩
        · cases eq
          exact not_malformedClause_of_test ne _ _
        · exact ih before clause rest (List.cons.inj eq).2
  · intro proper
    induction clauses with
    | nil => exact .none
    | cons clause rest ih =>
        rcases malformedClause_or clause rest with malformed | ⟨body, nonempty, rfl, rfl⟩ | ⟨test, body, ne, rfl⟩
        · exact absurd malformed (proper [] clause rest rfl)
        · exact .otherwise nonempty
        · exact .test ne (ih fun before clause' rest' eq => proper (_ :: before) clause' rest' (congrArg _ eq))

/-- The clauses before a first malformed one are those that have a test which is evaluated. -/
theorem forall_test_iff {before : List Value} {bad : Value} {rest : List Value} :
    (∀ clause ∈ before, ∃ test body, test ≠ .atom "else" ∧ clause = .list (test :: body)) ↔
      ∀ earlier clause later, before = earlier ++ clause :: later →
        ¬MalformedClause clause (later ++ bad :: rest) := by
  constructor
  · intro tests earlier clause later eq
    obtain ⟨test, body, ne, rfl⟩ := tests clause (by simp [eq])
    exact not_malformedClause_of_test ne body _
  · intro proper clause mem
    obtain ⟨earlier, later, rfl⟩ := List.append_of_mem mem
    rcases malformedClause_or clause (later ++ bad :: rest) with malformed | ⟨_, -, -, last⟩ | test
    · exact absurd malformed (proper earlier clause later rfl)
    · exact absurd last (by simp)
    · exact test

/-- A malformed clause has an error of the form as a whole, and the form ends with it. -/
theorem MalformedClause.exists_error {clause : Value} {rest : List Value} (malformed : MalformedClause clause rest) :
    ∃ error : ShapeError Value, error.concernsBinding = false ∧
      (∀ digits, error ≠ .oversizedLiteral digits) ∧ (∀ found ∈ error.found?, found = clause) ∧
      ∀ remaining call env, runCond remaining call env (clause :: rest) = shaped remaining (.error error) := by
  cases malformed with
  | withoutTest without =>
      refine ⟨.condClause clause, rfl, nofun, fun found eq => (Option.some.inj eq).symm, fun remaining call env => ?_⟩
      unfold runCond
      split
      · rename_i eq; cases eq
      · rename_i eq
        cases eq
        exact absurd rfl (without _ _)
      · rename_i eq
        cases eq
        rfl
  | elseNotLast body next rest => exact ⟨.elseNotLast, rfl, nofun, nofun, fun _ _ _ => rfl⟩
  | elseWithoutBody rest =>
      rcases rest with _ | ⟨next, rest⟩
      · exact ⟨.elseWithoutBody, rfl, nofun, nofun, fun _ _ _ => rfl⟩
      · exact ⟨.elseNotLast, rfl, nofun, nofun, fun _ _ _ => rfl⟩

/-- If the tests are all false, the form goes on with the clauses behind them, and makes no other calls before. -/
theorem runCond_append_of_allFalse {call : Caller} {env : FrameId} {clauses : List Value} {heap after : Heap}
    (tests : ∀ clause ∈ clauses, ∃ test body, test ≠ .atom "else" ∧ clause = .list (test :: body))
    (allFalse : AllFalse (fun e heap result => call (.eval e env) heap = result) clauses heap after)
    (remaining : Nat) (rest : List Value) :
    runCond remaining call env (clauses ++ rest) heap = runCond remaining call env rest after := by
  induction allFalse with
  | none heap => rfl
  | @test test body clauses heap mid after untrue _ ih =>
      obtain ⟨⟨_, _, ne, eq⟩, others⟩ := List.forall_mem_cons.mp tests
      cases eq
      simp only [List.cons_append, runCond, isElse_of_ne ne]
      exact (bind_of_ok untrue _).trans (ih others)

end Form

namespace Call

/-! ## Forms that choose -/

variable (env : FrameId)

/-- `if` with one branch is `nil` where the test is false. -/
theorem unbounded_ifThen (test positive : Value) :
    unbounded (.form .ifForm [test, positive] env) = (do
      if (← unbounded (.eval test env)).isTrue then unbounded (.eval positive env) else return .nil) := by
  refine unbounded_eq ((tends (.eval test env)).bind fun value => ?_)
  split
  · exact tends _
  · exact .pure Value.nil

/-- `if` with two branches takes one of them. -/
theorem unbounded_ifThenElse (test positive negative : Value) :
    unbounded (.form .ifForm [test, positive, negative] env) = (do
      if (← unbounded (.eval test env)).isTrue then unbounded (.eval positive env)
      else unbounded (.eval negative env)) := by
  refine unbounded_eq ((tends (.eval test env)).bind fun value => ?_)
  split
  · exact tends _
  · exact tends _

/-- `and` with operands left goes on only after a true one. -/
theorem unbounded_and_cons (e e' : Value) (es : List Value) :
    unbounded (.form .andForm (e :: e' :: es) env) = (do
      if (← unbounded (.eval e env)).isTrue then unbounded (.form .andForm (e' :: es) env)
      else return .bool false) := by
  refine unbounded_eq ((tends (.eval e env)).bind fun value => ?_)
  split
  · exact (tends (.form .andForm (e' :: es) env)).tail
  · exact .pure _

/-- `or` answers with the first value that is true. -/
theorem unbounded_or_cons (e : Value) (es : List Value) :
    unbounded (.form .orForm (e :: es) env) = (do
      let value ← unbounded (.eval e env)
      if value.isTrue then return value else unbounded (.form .orForm es env)) := by
  refine unbounded_eq ((tends (.eval e env)).bind fun value => ?_)
  split
  · exact .pure value
  · exact (tends (.form .orForm es env)).tail

theorem unbounded_or_nil : unbounded (.form .orForm [] env) = pure (Value.bool false) :=
  unbounded_eq (.pure (Value.bool false))

/-- Without a clause left `cond` is `nil`. -/
theorem unbounded_cond_nil : unbounded (.form .condForm [] env) = pure Value.nil :=
  unbounded_eq (.pure Value.nil)

/-- The clause without a test is taken where it is reached. -/
theorem unbounded_cond_else {body : List Value} (nonempty : body ≠ []) :
    unbounded (.form .condForm [.list (.atom "else" :: body)] env) =
      evalLast (fun e => unbounded (.eval e env)) body := by
  have isEmpty : body.isEmpty = false := by simpa using nonempty
  refine unbounded_eq ?_
  simp only [step, Form.run, Form.runCond, Form.isElse_iff.mpr, isEmpty]
  exact .evalLast (fun e => tends _) body

/-- A clause with a test is taken if that is true, and without a body its value is that of the test. -/
theorem unbounded_cond_test {test : Value} (ne : test ≠ .atom "else") (body rest : List Value) :
    unbounded (.form .condForm (.list (test :: body) :: rest) env) = (do
      let value ← unbounded (.eval test env)
      if !value.isTrue then unbounded (.form .condForm rest env)
      else if body.isEmpty then return value
      else evalLast (fun e => unbounded (.eval e env)) body) := by
  refine unbounded_eq ?_
  simp only [step, Form.run, Form.runCond, Form.isElse_of_ne ne]
  refine (tends (.eval test env)).bind fun value => ?_
  split
  · exact (tends (.form .condForm rest env)).tail
  · split
    · exact .pure value
    · exact .evalLast (fun e => tends _) body

/-! ## Expansions -/

theorem unbounded_false : unbounded (.eval (.atom "#f") env) = pure (Value.bool false) := by
  rw [unbounded_eval, evalCode, evalAtom]
  rfl

/-- The only value that is not true is the one that stands for it. -/
theorem bind_isTrue_self (x : Evaluation Value) :
    (do let value ← x; if value.isTrue then return value else return .bool false) = x := by
  have same : ∀ value : Value, (if value.isTrue then return value else return .bool false : Evaluation Value) =
      pure value := by
    intro value
    split
    · rfl
    next untrue => rw [Value.isTrue_eq_false_iff.mp (Bool.eq_false_iff.mpr untrue)]
  simp only [same, bind_pure]

/-- The expansion of clauses comes to what they come to. -/
theorem unbounded_condExpansion {clauses : List Value} (proper : Form.Clauses clauses) :
    unbounded (.eval (Form.condExpansion clauses) env) = unbounded (.form .condForm clauses env) := by
  induction proper with
  | none =>
      rw [Form.condExpansion, unbounded_code, unbounded_ifThen, unbounded_false, unbounded_cond_nil]
      rfl
  | otherwise nonempty =>
      rw [unbounded_cond_else env nonempty, Form.condExpansion, if_pos (Form.isElse_iff.mpr rfl), unbounded_code,
        unbounded_begin, Form.runBegin, if_neg (by simpa using nonempty)]
  | @test test body rest ne _ ih =>
      rw [unbounded_cond_test env ne, Form.condExpansion, if_neg (by simp [Form.isElse_of_ne ne])]
      rcases body with _ | ⟨e, es⟩
      · rw [if_pos List.isEmpty_nil, unbounded_code, unbounded_or_cons, unbounded_or_cons, unbounded_or_nil, ih,
          bind_isTrue_self]
        refine bind_congr fun value => ?_
        cases value.isTrue <;> rfl
      · rw [if_neg (by simp), unbounded_code, unbounded_ifThenElse, unbounded_code, unbounded_begin, ih]
        refine bind_congr fun value => ?_
        cases value.isTrue <;> rfl

/-- The expansion of `and` comes to what it comes to. -/
theorem unbounded_andExpansion (e : Value) (es : List Value) :
    unbounded (.eval (Form.andExpansion e es) env) = unbounded (.form .andForm (e :: es) env) := by
  induction es generalizing e with
  | nil =>
      have only : unbounded (.form .andForm [e] env) = unbounded (.eval e env) := unbounded_eq (tends (.eval e env))
      exact only.symm
  | cons e' es ih =>
      rw [unbounded_and_cons, Form.andExpansion, unbounded_code, unbounded_ifThenElse, unbounded_false, ih]

/-! ## Malformed clauses -/

/-- If the tests are all false, the form goes on with the clauses behind them. -/
theorem unbounded_cond_append_of_allFalse {clauses : List Value} {heap after : Heap}
    (tests : ∀ clause ∈ clauses, ∃ test body, test ≠ .atom "else" ∧ clause = .list (test :: body))
    (allFalse : Form.AllFalse (fun e heap result => unbounded (.eval e env) heap = result) clauses heap after)
    (rest : List Value) :
    unbounded (.form .condForm (clauses ++ rest) env) heap = unbounded (.form .condForm rest env) after := by
  induction allFalse with
  | none heap => rfl
  | @test test body clauses heap mid after untrue _ ih =>
      obtain ⟨⟨_, _, ne, eq⟩, others⟩ := List.forall_mem_cons.mp tests
      cases eq
      rw [List.cons_append, unbounded_cond_test env ne]
      exact (bind_of_ok untrue _).trans (ih others)

/-- If the tests are not all false, it makes no difference which clauses follow them. -/
theorem unbounded_cond_append_of_not_allFalse {clauses : List Value} {heap : Heap}
    (tests : ∀ clause ∈ clauses, ∃ test body, test ≠ .atom "else" ∧ clause = .list (test :: body))
    (taken : ¬∃ after,
      Form.AllFalse (fun e heap result => unbounded (.eval e env) heap = result) clauses heap after)
    (rest rest' : List Value) :
    unbounded (.form .condForm (clauses ++ rest) env) heap =
      unbounded (.form .condForm (clauses ++ rest') env) heap := by
  induction clauses generalizing heap with
  | nil => exact absurd ⟨heap, .none heap⟩ taken
  | cons clause clauses ih =>
      obtain ⟨⟨test, body, ne, rfl⟩, others⟩ := List.forall_mem_cons.mp tests
      rw [List.cons_append, List.cons_append, unbounded_cond_test env ne, unbounded_cond_test env ne]
      cases first : unbounded (.eval test env) heap with
      | error failure after => rw [bind_of_error first, bind_of_error first]
      | ok value mid =>
          rw [bind_of_ok first, bind_of_ok first]
          cases truth : value.isTrue with
          | true => rfl
          | false =>
              rw [Value.isTrue_eq_false_iff.mp truth] at first
              exact ih others fun ⟨after, allFalse⟩ => taken ⟨after, .test first allFalse⟩

/-- A malformed clause behind tests that are all false is an error. -/
theorem unbounded_cond_malformed {before : List Value} {heap after : Heap}
    (tests : ∀ clause ∈ before, ∃ test body, test ≠ .atom "else" ∧ clause = .list (test :: body))
    (allFalse : Form.AllFalse (fun e heap result => unbounded (.eval e env) heap = result) before heap after)
    {bad : Value} {rest : List Value} {error : ShapeError Value}
    (refused : ∀ remaining call env, Form.runCond remaining call env (bad :: rest) = shaped remaining (.error error)) :
    unbounded (.form .condForm (before ++ bad :: rest) env) heap = .error (.error (error.report after)) after := by
  have last : unbounded (.form .condForm (bad :: rest) env) = checked (.error error) := by
    refine unbounded_eq ?_
    simp only [step, Form.run, refused]
    exact Tends.shaped (.error error)
  rw [unbounded_cond_append_of_allFalse env tests allFalse, last]
  rfl

end Call

/-- **`cond` and `and` are their expansions**, in every heap and frame, away from the limit on nested calls; what
names are bound there makes no difference.

* Clauses none of which is malformed come to what their expansion comes to.
* So do the operands of an `and`, if there are any.
* If there is a first malformed clause, and all tests before it come to `#f`, the form ends with an error in the
  heap that the tests leave.  It is one of the class of malformed forms, unless the clause holds a number too long
  to be written; no expression does (`Value.Written.isUnwritable_eq_false`).  Only the tests are evaluated: the
  form ends like this whatever all other calls would come to.
* If not all of these tests come to `#f`, the form comes to what the clauses before the malformed one come to. -/
theorem cond_and_and_are_expansions (heap : Heap) (env : FrameId) :
    let comesTo (code : Value) (heap : Heap) (result : EStateM.Result Failure Heap Value) : Prop :=
      ComesTo (fun levels => Call.perform levels (.eval code env)) heap result
    (∀ clauses : List Value,
      (∀ before clause rest, clauses = before ++ clause :: rest → ¬Form.MalformedClause clause rest) →
      ∀ result, comesTo (Form.code .condForm clauses) heap result ↔
        comesTo (Form.condExpansion clauses) heap result) ∧
    (∀ (e : Value) (es : List Value) (result : EStateM.Result Failure Heap Value),
      comesTo (Form.code .andForm (e :: es)) heap result ↔ comesTo (Form.andExpansion e es) heap result) ∧
    ∀ (before : List Value) (bad : Value) (rest : List Value), Form.MalformedClause bad rest →
      (∀ earlier clause later, before = earlier ++ clause :: later →
        ¬Form.MalformedClause clause (later ++ bad :: rest)) →
      (∀ after, Form.AllFalse comesTo before heap after →
        ∃ error : EvalError, (bad.isUnwritable = false → error.kind = "MalformedForm") ∧
          comesTo (Form.code .condForm (before ++ bad :: rest)) heap (.error (.error error) after) ∧
          ∃ enough, ∀ levels ≥ enough, ∀ call : Caller,
            Form.AllFalse (fun e heap result => call (.eval e env) heap = result) before heap after →
            Call.step levels call (.form .condForm (before ++ bad :: rest) env) heap =
              .error (.error error) after) ∧
      ((¬∃ after, Form.AllFalse comesTo before heap after) →
        ∀ result, comesTo (Form.code .condForm (before ++ bad :: rest)) heap result ↔
          comesTo (Form.code .condForm before) heap result) := by
  intro comesTo
  have same : ∀ {code code' : Value},
      Call.unbounded (.eval code env) heap = Call.unbounded (.eval code' env) heap →
      ∀ result, comesTo code heap result ↔ comesTo code' heap result := fun eq result => by
    simp only [comesTo, Call.comesTo_iff, eq]
  have allFalse_iff : ∀ {clauses heap after}, Form.AllFalse comesTo clauses heap after ↔
      Form.AllFalse (fun e heap result => Call.unbounded (.eval e env) heap = result) clauses heap after :=
    ⟨fun h => h.mono fun ran => (Call.comesTo_iff.mp ran).1, fun h => h.mono fun ran =>
      Call.comesTo_iff.mpr ⟨ran, settled_ok _ _⟩⟩
  refine ⟨fun clauses proper => ?_, fun e es => ?_, fun before bad rest malformed proper => ⟨?_, ?_⟩⟩
  · refine same ?_
    rw [Call.unbounded_condExpansion env (Form.clauses_iff.mpr proper), Call.unbounded_code]
  · refine same ?_
    rw [Call.unbounded_andExpansion, Call.unbounded_code]
  · intro after allFalse
    have tests := Form.forall_test_iff.mpr proper
    obtain ⟨error, whole, readable, shown, refused⟩ := malformed.exists_error
    refine ⟨error.report after, fun writable => ?_, ?_, ?_⟩
    · have kind : (error.report after).kind = _ := error.kind_report readable fun found eq => by
        rw [shown found eq]
        exact Value.describe_ok writable after
      rwa [whole] at kind
    · refine Call.comesTo_iff.mpr ⟨?_, settled_error _ after⟩
      rw [Call.unbounded_code, Call.unbounded_cond_malformed env tests (allFalse_iff.mp allFalse) refused]
    · refine ⟨(error.found?.map Value.sourceLevels).getD 0, fun levels le call allFalse => ?_⟩
      rw [Call.step, Form.run, Form.runCond_append_of_allFalse tests allFalse, refused, shaped,
        if_neg (Nat.not_lt.mpr le)]
      rfl
  · intro taken
    have tests := Form.forall_test_iff.mpr proper
    refine same ?_
    have eq := Call.unbounded_cond_append_of_not_allFalse env tests
      (fun untaken => taken (untaken.imp fun _ => allFalse_iff.mpr)) (bad :: rest) []
    rw [Call.unbounded_code, Call.unbounded_code, eq, List.append_nil]

/-- A clause that is not taken is followed by an `else` clause, with a body and without; a clause that is taken, by
an atom. -/
theorem cond_and_and_are_expansions_of_literals :
    let no := Value.list [.atom "#f", .atom "1"]
    let yes := Value.list [.atom "#t", .atom "1"]
    let otherwise := Value.list [.atom "else", .atom "2"]
    let comesTo (code : Value) (result : EStateM.Result Failure Heap Value) : Prop :=
      ComesTo (fun levels => Call.perform levels (.eval code 0)) .empty result
    (∀ result, comesTo (Form.code .condForm [no, otherwise]) result ↔
      comesTo (Form.condExpansion [no, otherwise]) result) ∧
    (∃ error : EvalError, error.kind = "MalformedForm" ∧
      comesTo (Form.code .condForm [no, .list [.atom "else"]]) (.error (.error error) .empty)) ∧
    ∀ result, comesTo (Form.code .condForm [yes, .atom "x"]) result ↔
      comesTo (Form.code .condForm [yes]) result := by
  intro no yes otherwise comesTo
  obtain ⟨proper, -, malformed⟩ := cond_and_and_are_expansions .empty 0
  have of_literal : ∀ (text : String) (b : Bool), Literal.ofText text = .boolean b →
      Call.perform 1 (.eval (.atom text) 0) .empty = .ok (.bool b) .empty := by
    intro text b literal
    simp only [Call.perform, Call.step, Call.evalCode, Call.evalAtom, literal]
    rfl
  have is_test : ∀ text : String, text ≠ "else" → ∀ clause ∈ [Value.list [.atom text, .atom "1"]],
      ∃ test body, test ≠ .atom "else" ∧ clause = .list (test :: body) := by
    intro text ne clause mem
    cases List.mem_singleton.mp mem
    exact ⟨_, _, fun eq => ne (Value.atom.inj eq), rfl⟩
  refine ⟨proper _ (Form.clauses_iff.mp (.test (fun eq => absurd (Value.atom.inj eq) (by decide))
    (.otherwise (List.cons_ne_nil _ _)))), ?_, ?_⟩
  · obtain ⟨found, -⟩ := malformed [no] (.list [.atom "else"]) [] (.elseWithoutBody [])
      (Form.forall_test_iff.mp (is_test "#f" (by decide)))
    have untrue := Call.comesTo_of_perform 1 (of_literal "#f" false rfl) (settled_ok _ _)
    obtain ⟨error, kind, comes, -⟩ := found .empty (.test untrue (.none _))
    exact ⟨error, kind rfl, comes⟩
  · obtain ⟨-, found⟩ := malformed [yes] (.atom "x") [] (.withoutTest fun _ _ => Value.noConfusion)
      (Form.forall_test_iff.mp (is_test "#t" (by decide)))
    refine found ?_
    rintro ⟨after, allFalse⟩
    unfold yes at allFalse
    have holds := Call.comesTo_iff.mp (Call.comesTo_of_perform 1 (of_literal "#t" true rfl) (settled_ok _ _))
    cases allFalse with
    | test untrue _ =>
        have both := holds.1.symm.trans (Call.comesTo_iff.mp untrue).1
        cases both

end ScopedLisp
