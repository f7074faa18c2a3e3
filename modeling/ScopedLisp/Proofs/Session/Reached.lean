import ScopedLisp.Proofs.Evaluation.Locality

/-!
# ScopedLisp.Proofs.Session.Reached

The sessions that an interpreter comes to.  A step of a session evaluates a form, a source text or a
prelude; it may fail, and the session goes on.  A text is evaluated form by form, so the steps
that evaluate one form reach every session (`Interpreter.Reaches.eval`), also those that
come between two forms of a text.

All that a form does to the heap, evaluation does (`Interpreter.evalForm_ends`); and a form never
changes how many nested calls are allowed.
-/

namespace ScopedLisp

open Evaluation

namespace Step

variable {α β : Type} {step : Step α} {session after : Session}

theorem sessionAfter_of_ok {a : α} (h : step session = .ok a after) :
    step.sessionAfter session = after := by
  simp only [sessionAfter, h]

theorem sessionAfter_of_error {error : Error} (h : step session = .error error after) :
    step.sessionAfter session = after := by
  simp only [sessionAfter, h]

/-! ## Texts and records -/

/-- To make a text changes nothing, whether it succeeds or not. -/
theorem write_ends (levels : Nat) (text : Heap → Except EvalError String) (session : Session) :
    (∃ s, text session.heap = .ok s ∧ write levels text session = .ok s session) ∨
    ∃ error, write levels text session = .error (.evaluation error) session ∧
      (session.depthLimit ≤ levels ∧ error = .tooDeepToWrite ∨ text session.heap = .error error) := by
  unfold write
  split
  · unfold query
    cases text session.heap with
    | ok s => exact Or.inl ⟨s, rfl, rfl⟩
    | error error => exact Or.inr ⟨error, rfl, Or.inr rfl⟩
  next few => exact Or.inr ⟨_, rfl, Or.inl ⟨Nat.le_of_not_lt few, rfl⟩⟩

/-- To log something makes the log longer, if at all.  It fails where the record cannot be put into
words. -/
theorem record_ends (r : LogRecord) (session : Session) :
    (∃ log, record r session = .ok () { session with log := log }) ∨
    ∃ error, record r session = .error (.evaluation error) session ∧
      session.threshold.rank ≤ r.level.rank ∧
      (session.depthLimit ≤ r.levels ∧ error = .tooDeepToWrite ∨
        r.line? session.heap = .error error) := by
  by_cases serious : session.threshold.rank ≤ r.level.rank
  · have eq : record r session = (write r.levels (fun heap => r.line? heap) >>= fun line =>
        modify fun session => { session with log := session.log.push line }) session := by
      rw [record, bind_of_ok (get_eq session), if_pos serious]
    rcases write_ends r.levels (fun heap => r.line? heap) session with ⟨s, _, h⟩ | ⟨error, h, why⟩
    · exact Or.inl ⟨session.log.push s, eq.trans (bind_of_ok h _)⟩
    · exact Or.inr ⟨error, eq.trans (bind_of_error h _), serious, why⟩
  · refine Or.inl ⟨session.log, ?_⟩
    rw [record, bind_of_ok (get_eq session), if_neg serious]
    rfl

/-- A record without code in it can always be put into words. -/
theorem record_ok_of_flat (limit : 0 < session.depthLimit) {r : LogRecord} (flat : r.levels = 0)
    (words : ∀ heap error, r.line? heap ≠ .error error) :
    ∃ log, record r session = .ok () { session with log := log } := by
  rcases record_ends r session with h | ⟨failure, _, _, ⟨few, _⟩ | wordless⟩
  · exact h
  · rw [flat] at few
    exact absurd few (Nat.not_le.mpr limit)
  · exact absurd wordless (words _ _)

/-- The heap is as it was, and as many nested calls are allowed as before or more, whether the step fails
or not. -/
def Quiet (step : Step α) : Prop :=
  ∀ session, (step.sessionAfter session).heap = session.heap ∧
    session.depthLimit ≤ (step.sessionAfter session).depthLimit

/-- Steps in a row are quiet if each of them is. -/
theorem Quiet.bind {next : α → Step β} (hstep : Quiet step) (hnext : ∀ a, Quiet (next a)) :
    Quiet (step >>= next) := by
  intro session
  have quiet := hstep session
  cases h : step session with
  | ok a mid =>
      rw [sessionAfter_of_ok h] at quiet
      rw [sessionAfter, bind_of_ok h]
      exact ⟨(hnext a mid).1.trans quiet.1, Nat.le_trans quiet.2 (hnext a mid).2⟩
  | error error after =>
      rw [sessionAfter_of_error h] at quiet
      rw [sessionAfter_of_error (bind_of_error h next)]
      exact quiet

theorem quiet_pure (a : α) : Quiet (pure a : Step α) := fun _ => ⟨rfl, Nat.le_refl _⟩

/-- A record touches nothing but the log. -/
theorem quiet_record (r : LogRecord) : Quiet (record r) := by
  intro session
  rcases record_ends r session with ⟨log, h⟩ | ⟨error, h, _⟩
  · rw [sessionAfter_of_ok h]
    exact ⟨rfl, Nat.le_refl _⟩
  · rw [sessionAfter_of_error h]
    exact ⟨rfl, Nat.le_refl _⟩

theorem quiet_recordAll : (records : List LogRecord) → Quiet (recordAll records)
  | [] => quiet_pure ()
  | r :: rs => (quiet_record r).bind fun _ => quiet_recordAll rs

/-- To raise the depth limit touches nothing but that limit. -/
theorem quiet_raiseDepthLimit (settings : Settings) : Quiet (raiseDepthLimit settings) := by
  unfold raiseDepthLimit
  obtain ⟨requested, records⟩ := settings.readDepthLimit
  refine (quiet_recordAll records).bind fun _ => ?_
  cases requested with
  | none => exact quiet_pure ()
  | some limit =>
      intro session
      simp only [sessionAfter, bind_of_ok (get_eq session)]
      by_cases enough : limit ≤ session.depthLimit
      · simp only [if_pos enough]
        exact quiet_pure () session
      · simp only [if_neg enough]
        rcases record_ends (.raisingLimit limit) session with ⟨log, h⟩ | ⟨error, h, _⟩
        · rw [bind_of_ok h]
          by_cases tooLarge : Session.greatestDepthLimit < limit
          · rw [if_pos tooLarge]
            exact ⟨rfl, Nat.le_refl _⟩
          · rw [if_neg tooLarge]
            exact ⟨rfl, Nat.le_of_not_le enough⟩
        · rw [bind_of_error h]
          exact ⟨rfl, Nat.le_refl _⟩

end Step

/-! ## Evaluating a form -/

namespace Interpreter

variable {interpreter : Interpreter} {code : Value} {start session after : Session}

/-- How the evaluation of a form ends: as evaluation does, in the session as it is but for its log; or
because something is to be logged that cannot be put into words. -/
inductive FormEnds (interpreter : Interpreter) (code : Value) (session : Session) :
    EStateM.Result Error Session Value → Prop where
  /-- The form itself cannot be logged, and is not evaluated. -/
  | unwritten {error : EvalError} :
      Step.record (.evaluating code) session = .error (.evaluation error) session →
      FormEnds interpreter code session (.error (.evaluation error) session)
  | value {log : Array String} {value : Value} {after : Session} :
      Step.evaluate code interpreter.root { session with log := log } = .ok value after →
      FormEnds interpreter code session (.ok value after)
  | error {log : Array String} {error : Error} {after : Session} (log' : Array String) :
      Step.evaluate code interpreter.root { session with log := log } = .error error after →
      FormEnds interpreter code session (.error error { after with log := log' })
  /-- The failure of the form cannot be logged. -/
  | unreported {log : Array String} {error : Error} {after : Session} {failure : EvalError} :
      Step.evaluate code interpreter.root { session with log := log } = .error error after →
      Step.record (.failed error.kind error.message) after = .error (.evaluation failure) after →
      FormEnds interpreter code session (.error (.evaluation failure) after)

/-- A form of a source ends in one of the listed ways. -/
theorem evalForm_ends (interpreter : Interpreter) (code : Value) (session : Session) :
    FormEnds interpreter code session (interpreter.evalForm code session) := by
  unfold evalForm
  rcases Step.record_ends (.evaluating code) session with ⟨log, hr⟩ | ⟨error, hr, _⟩
  · rw [bind_of_ok hr]
    cases he : Step.evaluate code interpreter.root { session with log := log } with
    | ok value after =>
        rw [tryCatch_of_ok he]
        exact .value he
    | error error after =>
        rw [tryCatch_of_error he]
        by_cases language : error.isOfLanguage = true
        · rw [if_pos language]
          rcases Step.record_ends (.failed error.kind error.message) after with
            ⟨log', hf⟩ | ⟨failure, hf, _⟩
          · rw [bind_of_ok hf]
            exact .error log' he
          · rw [bind_of_error hf]
            exact .unreported he hf
        · rw [if_neg language]
          exact .error after.log he
  · rw [bind_of_error hr]
    exact .unwritten hr

/-! ## Sessions -/

/-- The sessions that `start` comes to when the interpreter evaluates forms, one after the other,
whether they fail or not. -/
inductive Reaches (interpreter : Interpreter) (start : Session) : Session → Prop where
  | start : Reaches interpreter start start
  | form {session : Session} (e : Expr) : Reaches interpreter start session →
      Reaches interpreter start ((interpreter.evalForm e.toValue).sessionAfter session)

section Streams

variable {stream rest : TokenStream} {e : Expr}

/-- A stream that cannot be read further ends with that error. -/
theorem evalStream_of_error {error : ParseError} (h : stream.readExpr = (.error error, rest))
    (last : Value) : interpreter.evalStream stream last = throw (.reading error) := by
  rw [evalStream.eq_1]
  split <;> simp_all

/-- A stream that has ended answers with the value of its last form. -/
theorem evalStream_of_end (h : stream.readExpr = (.ok none, rest)) (last : Value) :
    interpreter.evalStream stream last = pure last := by
  rw [evalStream.eq_1]
  split <;> simp_all

/-- A stream with a form evaluates it, then what follows. -/
theorem evalStream_of_form (h : stream.readExpr = (.ok (some e), rest)) (last : Value) :
    interpreter.evalStream stream last =
      interpreter.evalForm e.toValue >>= interpreter.evalStream rest := by
  rw [evalStream.eq_1]
  split <;> simp_all

end Streams

/-- To evaluate the forms of a stream is to evaluate forms: the session that is left is reached, and a
value is that of the last form, if there is one. -/
theorem Reaches.evalStream (reached : interpreter.Reaches start session) (stream : TokenStream)
    (last : Value) :
    interpreter.Reaches start ((interpreter.evalStream stream last).sessionAfter session) ∧
    ∀ value after, interpreter.evalStream stream last session = .ok value after →
      value = last ∧ after = session ∨
      ∃ mid, ∃ e : Expr, interpreter.Reaches start mid ∧
        interpreter.evalForm e.toValue mid = .ok value after := by
  induction stream, last using evalStream.induct generalizing session with
  | case1 stream last error rest h =>
      rw [evalStream_of_error h]
      exact ⟨reached, nofun⟩
  | case2 stream last rest h =>
      rw [evalStream_of_end h]
      refine ⟨reached, ?_⟩
      rintro _ _ ⟨⟩
      exact Or.inl ⟨rfl, rfl⟩
  | case3 stream last e rest h ih =>
      rw [evalStream_of_form h]
      have evaluated := reached.form e
      cases hf : interpreter.evalForm e.toValue session with
      | error error mid =>
          rw [Step.sessionAfter_of_error hf] at evaluated
          rw [Step.sessionAfter_of_error (bind_of_error hf _), bind_of_error hf]
          exact ⟨evaluated, nofun⟩
      | ok v mid =>
          rw [Step.sessionAfter_of_ok hf] at evaluated
          obtain ⟨reached', value_of⟩ := ih v evaluated
          have eq : (interpreter.evalForm e.toValue >>= interpreter.evalStream rest) session =
              interpreter.evalStream rest v mid := bind_of_ok hf _
          refine ⟨?_, fun value after hrest => ?_⟩
          · rw [Step.sessionAfter, eq]
            exact reached'
          · rw [eq] at hrest
            rcases value_of value after hrest with ⟨rfl, rfl⟩ | later
            · exact Or.inr ⟨session, e, reached, hf⟩
            · exact Or.inr later

/-- A source text leads to a session that forms lead to. -/
theorem Reaches.eval (reached : interpreter.Reaches start session) (source : String) :
    interpreter.Reaches start ((interpreter.eval source).sessionAfter session) :=
  (reached.evalStream (lex source) .nil).1

/-- A prelude leads where its text leads. -/
theorem Reaches.evalPrelude (reached : interpreter.Reaches start session) (source : String) :
    interpreter.Reaches start ((interpreter.evalPrelude source).sessionAfter session) := by
  have eq : (interpreter.evalPrelude source).sessionAfter session =
      (interpreter.eval source).sessionAfter session := by
    cases h : interpreter.eval source session with
    | ok value after =>
        rw [Step.sessionAfter_of_ok h]
        exact Step.sessionAfter_of_ok (bind_of_ok h _)
    | error error after =>
        rw [Step.sessionAfter_of_error h]
        exact Step.sessionAfter_of_error (bind_of_error h _)
  rw [eq]
  exact reached.eval source

/-! ## What evaluation leaves -/

/-- Evaluation changes the heap of a session and nothing else. -/
theorem evaluate_ends (code : Value) (env : FrameId) (session : Session) :
    ∃ heap, (Step.evaluate code env).sessionAfter session = { session with heap := heap } := by
  simp only [Step.sessionAfter, Step.evaluate]
  cases Call.perform session.depthLimit (.eval code env) session.heap with
  | ok value after => exact ⟨after, rfl⟩
  | error failure after => cases failure <;> exact ⟨after, rfl⟩

/-- All that a form does to the heap, evaluation does. -/
theorem heap_evalForm (interpreter : Interpreter) (code : Value) (session : Session) :
    let after := (interpreter.evalForm code).sessionAfter session
    after.depthLimit = session.depthLimit ∧ (after.heap = session.heap ∨
      after.heap = heapAfter (Call.perform session.depthLimit (.eval code interpreter.root))
        session.heap) := by
  have evaluated : ∀ log,
      let after := (Step.evaluate code interpreter.root).sessionAfter { session with log := log }
      after.depthLimit = session.depthLimit ∧
      after.heap = heapAfter (Call.perform session.depthLimit (.eval code interpreter.root))
        session.heap := by
    intro log
    obtain ⟨heap, eq⟩ := evaluate_ends code interpreter.root { session with log := log }
    exact ⟨by rw [eq], Step.heap_sessionAfter_evaluate _ _ _⟩
  unfold Step.sessionAfter at evaluated ⊢
  have ends := evalForm_ends interpreter code session
  generalize interpreter.evalForm code session = result at ends
  cases ends with
  | unwritten _ => exact ⟨rfl, Or.inl rfl⟩
  | @value log value after h =>
      have := evaluated log
      rw [h] at this
      exact ⟨this.1, Or.inr this.2⟩
  | @error log error after log' h =>
      have := evaluated log
      rw [h] at this
      exact ⟨this.1, Or.inr this.2⟩
  | @unreported log error after failure h _ =>
      have := evaluated log
      rw [h] at this
      exact ⟨this.1, Or.inr this.2⟩

/-- A form that can be put into words where that is asked for ends as its evaluation does. -/
theorem evalForm_written (interpreter : Interpreter) {e : Expr} (positive : 0 < session.depthLimit)
    (written : session.threshold = .debug → e.toValue.height < session.depthLimit) :
    ∃ log,
      (∃ v after, Step.evaluate e.toValue interpreter.root { session with log := log } = .ok v after ∧
        interpreter.evalForm e.toValue session = .ok v after) ∨
      ∃ error after log', Step.evaluate e.toValue interpreter.root { session with log := log } = .error error after ∧
        interpreter.evalForm e.toValue session = .error error { after with log := log' } := by
  have ends := interpreter.evalForm_ends e.toValue session
  generalize interpreter.evalForm e.toValue session = result at ends
  cases ends with
  | value evaluated => exact ⟨_, Or.inl ⟨_, _, evaluated, rfl⟩⟩
  | error log' evaluated => exact ⟨_, Or.inr ⟨_, _, log', evaluated, rfl⟩⟩
  | unwritten unwritten =>
      rcases Step.record_ends (.evaluating e.toValue) session with ⟨log, recorded⟩ | ⟨error, recorded, serious, why⟩
      · rw [recorded] at unwritten
        cases unwritten
      · have debug : session.threshold = .debug := by
          cases h : session.threshold with
          | debug => rfl
          | _ => rw [h] at serious; cases serious
        rcases why with ⟨few, -⟩ | unwritable
        · exact absurd (written debug) (Nat.not_lt.mpr few)
        · have shown : e.toValue.inspect? session.heap = .ok (e.toValue.inspect session.heap) := by
            rw [Value.inspect?, Value.guarded, e.written_toValue.isUnwritable_eq_false]
            rfl
          simp only [LogRecord.line?, LogRecord.message?, shown] at unwritable
          cases unwritable
  | @unreported log error after failure evaluated unreported =>
      obtain ⟨heap, same⟩ := evaluate_ends e.toValue interpreter.root { session with log := log }
      rw [Step.sessionAfter_of_error evaluated] at same
      rcases Step.record_ends (.failed error.kind error.message) after with ⟨log, recorded⟩ | ⟨_, _, _, why⟩
      · rw [recorded] at unreported
        cases unreported
      · rcases why with ⟨few, -⟩ | unwritable
        · rw [same] at few
          exact absurd positive (Nat.not_lt.mpr few)
        · cases unwritable

end Interpreter

end ScopedLisp
