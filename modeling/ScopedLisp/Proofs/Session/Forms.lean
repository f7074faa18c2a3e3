import ScopedLisp.Proofs.Session.Reached

/-!
# ScopedLisp.Proofs.Session.Forms

The forms of a source text in a row.  `Interpreter.Shows` evaluates forms and puts their values into
words, all without an error, with the log emptied between them; `Interpreter.Runs` evaluates the
forms of a stream, with a log that grows.  What has been logged does not matter to a step
(`Step.IgnoresLog`), so if a row of forms can be shown, then a stream of them runs through the
same sessions, and its value is the one shown last (`Interpreter.Shows.runs`).
-/

namespace ScopedLisp

/-- A session with an empty log. -/
def Session.unlogged (session : Session) : Session := { session with log := #[] }

@[simp] theorem Session.unlogged_unlogged (session : Session) :
    session.unlogged.unlogged = session.unlogged := rfl

@[simp] theorem Session.unlogged_withLog (session : Session) (log : Array String) :
    Session.unlogged { session with log := log } = session.unlogged := rfl

/-- Sessions that are the same but for their logs. -/
theorem Session.eq_withLog {s s' : Session} (h : s.unlogged = s'.unlogged) :
    s' = { s with log := s'.log } := by
  obtain ⟨heap, limit, threshold, log, objects⟩ := s
  obtain ⟨heap', limit', threshold', log', objects'⟩ := s'
  simp only [unlogged, mk.injEq] at h ⊢
  exact ⟨h.1.symm, h.2.1.symm, h.2.2.1.symm, trivial, h.2.2.2.2.symm⟩

namespace Step

variable {α β : Type} {step : Step α}

/-! ## The log does not matter -/

/-- The same answer, in the same session but for the log. -/
inductive SameEnd :
    EStateM.Result Error Session α → EStateM.Result Error Session α → Prop where
  | ok {a : α} {s s' : Session} : s.unlogged = s'.unlogged → SameEnd (.ok a s) (.ok a s')
  | error {e : Error} {s s' : Session} : s.unlogged = s'.unlogged → SameEnd (.error e s) (.error e s')

/-- What has been logged does not matter. -/
def IgnoresLog (step : Step α) : Prop :=
  ∀ s s', s.unlogged = s'.unlogged → SameEnd (step s) (step s')

/-- An error does not depend on the log. -/
theorem ignoresLog_throw (e : Error) : IgnoresLog (throw e : Step α) := fun _ _ same => .error same

/-- Steps in a row ignore the log if each of them does. -/
theorem IgnoresLog.bind {next : α → Step β} (first : IgnoresLog step)
    (second : ∀ a, IgnoresLog (next a)) : IgnoresLog (step >>= next) := by
  intro s s' same
  have ends := first s s' same
  simp only [Bind.bind, EStateM.bind]
  generalize step s = r at ends ⊢
  generalize step s' = r' at ends ⊢
  cases ends with
  | ok same => exact second _ _ _ same
  | error same => exact .error same

/-- A step with its handler ignores the log if both do. -/
theorem IgnoresLog.tryCatch {handle : Error → Step α} (first : IgnoresLog step)
    (second : ∀ e, IgnoresLog (handle e)) : IgnoresLog (tryCatch step handle) := by
  intro s s' same
  have ends := first s s' same
  cases h : step s with
  | ok a t =>
      cases h' : step s' with
      | ok a' t' =>
          rw [tryCatch_of_ok h, tryCatch_of_ok h', ← h, ← h']
          exact ends
      | error e' t' =>
          rw [h, h'] at ends
          cases ends
  | error e t =>
      cases h' : step s' with
      | ok a' t' =>
          rw [h, h'] at ends
          cases ends
      | error e' t' =>
          rw [h, h'] at ends
          rw [tryCatch_of_error h, tryCatch_of_error h']
          cases ends with
          | error same => exact second _ _ _ same

/-- Whether a text can be written does not depend on the log. -/
theorem ignoresLog_write (levels : Nat) (text : Heap → Except EvalError String) :
    IgnoresLog (write levels text) := by
  intro s s' same
  rw [Session.eq_withLog same]
  simp only [write, query]
  split
  · cases text s.heap with
    | ok line => exact .ok rfl
    | error error => exact .error rfl
  · exact .error rfl

/-- A record goes behind those that are logged, whatever they are. -/
theorem ignoresLog_record (r : LogRecord) : IgnoresLog (record r) := by
  intro s s' same
  have written := ignoresLog_write r.levels (fun heap => r.line? heap) s s' same
  have threshold : s'.threshold = s.threshold := by rw [Session.eq_withLog same]
  rw [record, bind_of_ok (get_eq s), bind_of_ok (get_eq s'), threshold]
  split
  · simp only [Bind.bind, EStateM.bind]
    generalize write r.levels (fun heap => r.line? heap) s = x at written ⊢
    generalize write r.levels (fun heap => r.line? heap) s' = y at written ⊢
    cases written with
    | ok same => exact .ok same
    | error same => exact .error same
  · exact .ok same

/-- Evaluation does not read the log. -/
theorem ignoresLog_evaluate (code : Value) (env : FrameId) : IgnoresLog (evaluate code env) := by
  intro s s' same
  rw [Session.eq_withLog same]
  simp only [evaluate]
  cases Call.perform s.depthLimit (.eval code env) s.heap with
  | ok value heap => exact .ok rfl
  | error failure heap => cases failure <;> exact .error rfl

/-- A form with its records is evaluated alike whatever was logged before. -/
theorem ignoresLog_evalForm (interpreter : Interpreter) (code : Value) :
    IgnoresLog (interpreter.evalForm code) := by
  refine (ignoresLog_record _).bind fun _ => ?_
  refine (ignoresLog_evaluate code interpreter.root).tryCatch fun error => ?_
  split
  · exact (ignoresLog_record _).bind fun _ => ignoresLog_throw error
  · exact ignoresLog_throw error

/-- A step that succeeds does so with another log too, with the same answer. -/
theorem IgnoresLog.of_ok (ignores : IgnoresLog step) {s s' t : Session} {a : α}
    (same : s.unlogged = s'.unlogged) (h : step s = .ok a t) :
    ∃ t', step s' = .ok a t' ∧ t.unlogged = t'.unlogged := by
  have ends := ignores s s' same
  rw [h] at ends
  generalize step s' = r at ends ⊢
  cases ends with
  | ok same => exact ⟨_, rfl, same⟩

/-- To put a value into words changes nothing. -/
theorem display_of_unlogged {v : Value} {s s' t : Session} {text : String}
    (same : s.unlogged = s'.unlogged) (h : display v s = .ok text t) :
    display v s' = .ok text s' := by
  obtain ⟨t', h', -⟩ := (ignoresLog_write v.height fun heap => v.display? heap).of_ok same h
  rcases write_ends v.height (fun heap => v.display? heap) s' with ⟨line, -, eq⟩ | ⟨error, eq, -⟩
  · have same := eq.symm.trans h'
    cases same
    exact eq
  · cases eq.symm.trans h'

end Step

/-! ## Forms in a row -/

/-- A form that has been evaluated and its value shown: the session that it was evaluated in, its log
aside, and the text shown. -/
structure Shown where
  form : Expr
  state : Session
  text : String

namespace Interpreter

variable {interpreter : Interpreter} {s last : Session} {history : List Shown}

/-- Forms are evaluated one after the other and their values are put into words, all without an
error. -/
inductive Shows (interpreter : Interpreter) : Session → List Shown → Session → Prop where
  | done {session : Session} : Shows interpreter session [] session
  | form {e : Expr} {value : Value} {text : String} {session mid last : Session}
      {history : List Shown} : interpreter.evalForm e.toValue session = .ok value mid →
      Step.display value mid = .ok text mid → Shows interpreter mid.unlogged history last →
      Shows interpreter session (⟨e, session, text⟩ :: history) last

/-- The forms of a stream are evaluated one after the other, without an error; their sessions are given
without their logs. -/
inductive Runs (interpreter : Interpreter) :
    TokenStream → Value → Session → List (Expr × Session) → Value → Session → Prop where
  | ended {stream rest : TokenStream} {value : Value} {session : Session} :
      stream.readExpr = (.ok none, rest) → Runs interpreter stream value session [] value session
  | form {stream rest : TokenStream} {e : Expr} {last value result : Value}
      {session mid after : Session} {steps : List (Expr × Session)} :
      stream.readExpr = (.ok (some e), rest) →
      interpreter.evalForm e.toValue session = .ok value mid →
      Runs interpreter rest value mid steps result after →
      Runs interpreter stream last session ((e, session.unlogged) :: steps) result after

/-- This is how a stream is evaluated. -/
theorem Runs.evalStream_eq {stream : TokenStream} {last value : Value} {session after : Session}
    {steps : List (Expr × Session)} (runs : interpreter.Runs stream last session steps value after) :
    interpreter.evalStream stream last session = .ok value after := by
  induction runs with
  | ended h =>
      rw [evalStream_of_end h]
      rfl
  | form h evaluated _ ih =>
      rw [evalStream_of_form h, bind_of_ok evaluated]
      exact ih

/-- A source that can be read as a whole is a stream that ends without an error. -/
theorem readRest_of_readAll {source : String} {es : List Expr} (h : readAll source = .ok es) :
    ∃ final, (lex source).readRest = (es, none, final) := by
  unfold readAll at h
  generalize (lex source).readRest = result at h ⊢
  obtain ⟨exprs, error, final⟩ := result
  cases error with
  | none =>
      cases h
      exact ⟨final, rfl⟩
  | some error => cases h

/-- A stream that can be read begins with a form, or there is nothing in it. -/
theorem readExpr_of_readRest {stream final : TokenStream} {es : List Expr}
    (h : stream.readRest = (es, none, final)) :
    (es = [] ∧ ∃ rest, stream.readExpr = (.ok none, rest)) ∨
    ∃ e es' rest, es = e :: es' ∧ stream.readExpr = (.ok (some e), rest) ∧
      rest.readRest = (es', none, final) := by
  revert h
  fun_cases TokenStream.readRest stream with
  | case1 rest read =>
      rintro ⟨⟩
      exact Or.inl ⟨rfl, _, read⟩
  | case2 error rest read => rintro ⟨⟩
  | case3 e rest read exprs error last hrest =>
      rintro ⟨⟩
      exact Or.inr ⟨e, exprs, rest, rfl, read, hrest⟩

/-- The log is empty after a row of forms if it was before. -/
theorem Shows.unlogged (row : interpreter.Shows s history last) (h : s.unlogged = s) :
    last.unlogged = last := by
  induction row with
  | done => exact h
  | form _ _ _ ih => exact ih rfl

/-- A row of forms is shown in parts. -/
theorem Shows.of_append {first rest : List Shown}
    (row : interpreter.Shows s (first ++ rest) last) :
    ∃ mid, interpreter.Shows s first mid ∧ interpreter.Shows mid rest last := by
  induction first generalizing s with
  | nil => exact ⟨s, .done, row⟩
  | cons shown first ih =>
      cases row with
      | form evaluated displayed more =>
          obtain ⟨mid, more, others⟩ := ih more
          exact ⟨mid, .form evaluated displayed more, others⟩

/-- **The same forms in the same sessions**: forms that can be shown one by one run as a stream. -/
theorem Shows.runs (row : interpreter.Shows s history last) (unlogged : s.unlogged = s)
    {stream final : TokenStream} (read : stream.readRest = (history.map Shown.form, none, final))
    (value : Value) {session : Session} (same : session.unlogged = s) :
    ∃ result after, interpreter.Runs stream value session
        (history.map fun shown => (shown.form, shown.state)) result after ∧
      after.unlogged = last.unlogged ∧ (history = [] → result = value) ∧
      ∀ shown ∈ history.getLast?, Step.display result last = .ok shown.text last := by
  induction row generalizing stream value session with
  | done =>
      rcases readExpr_of_readRest read with ⟨-, rest, ended⟩ | ⟨e, es, rest, eq, -⟩
      · exact ⟨value, session, .ended ended, by rw [same, unlogged], fun _ => rfl, nofun⟩
      · cases eq
  | @form e v text start mid last history evaluated displayed rest ih =>
      rcases readExpr_of_readRest read with ⟨eq, -⟩ | ⟨e', es, tail, eq, first, more⟩
      · cases eq
      cases eq
      -- the log of the stream is longer, which makes no difference
      have sameStart : start.unlogged = session.unlogged := by rw [same, unlogged]
      obtain ⟨mid', evaluated', sameMid⟩ :=
        (Step.ignoresLog_evalForm interpreter e.toValue).of_ok sameStart evaluated
      obtain ⟨result, after, runs, sameAfter, none, lastShown⟩ := ih rfl more v sameMid.symm
      have runs' : interpreter.Runs stream value session _ result after :=
        .form first evaluated' runs
      rw [same] at runs'
      refine ⟨result, after, runs', sameAfter, nofun, fun shown mem => ?_⟩
      cases rest with
      | done =>
          cases none rfl
          cases mem
          have shownAgain := Step.display_of_unlogged mid.unlogged_unlogged.symm displayed
          exact shownAgain
      | form => exact lastShown shown mem

end Interpreter

end ScopedLisp
