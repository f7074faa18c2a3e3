import ScopedLisp.Proofs.Reading
import ScopedLisp.Proofs.Session.Errors
import ScopedLisp.Proofs.Session.Values

/-!
# ScopedLisp.Proofs.Session.Endings

How the steps of a standard session end that a command line takes: to evaluate a form or a source
text, and to write a value.  Each ends with a native value, with an error of the language, or with one
of two others (`EvalError.Stops`): an integer of too many digits, or a form that the log shows
and that is nested too deeply to be shown.  In every case the session can go on.
-/

namespace ScopedLisp

/-- A session in the midst of its work, for an interpreter with a standard root frame. -/
structure Interpreter.Ready (interpreter : Interpreter) (threshold : LogLevel) (session : Session) :
    Prop where
  kept : Territory.language.Kept .standard session.heap
  root : interpreter.root < session.heap.frames.size
  limit : 0 < session.depthLimit
  threshold : session.threshold = threshold

/-- The errors that are none of the language and that evaluation, writing or logging may have: an
integer of too many digits; and, where everything is logged, code nested too deeply. -/
def EvalError.Stops (threshold : LogLevel) (error : EvalError) : Prop :=
  error.isDigitLimit = true ∨ error = .tooDeepToWrite ∧ threshold = .debug

/-- An error of the language, or one of those that are not. -/
def Error.Expected (threshold : LogLevel) (error : Error) : Prop :=
  error.isOfLanguage = true ∨ ∃ cause, error = .evaluation cause ∧ cause.Stops threshold

/-- From a session that is ready the step leads to one that is; its value is `good`, or its error is to
be expected. -/
def Step.Yields {α : Type} (interpreter : Interpreter) (threshold : LogLevel) (good : α → Prop)
    (step : Step α) : Prop :=
  ∀ session, interpreter.Ready threshold session →
    match step session with
    | .ok a after => interpreter.Ready threshold after ∧ good a
    | .error error after => interpreter.Ready threshold after ∧ error.Expected threshold

variable {interpreter : Interpreter} {threshold : LogLevel} {session : Session}

namespace Interpreter

/-- A session that an interpreter has begun is ready for it. -/
theorem Begins.ready (begins : interpreter.Begins session) (limit : 0 < session.depthLimit) :
    interpreter.Ready session.threshold session where
  kept := by
    have kept := begins.kept
    rw [begins.heap] at kept ⊢
    exact kept
  root := begins.lt
  limit := limit
  threshold := rfl

/-- The log does not matter. -/
theorem Ready.withLog (ready : interpreter.Ready threshold session) (log : Array String) :
    interpreter.Ready threshold { session with log := log } :=
  ⟨ready.kept, ready.root, ready.limit, ready.threshold⟩

/-- A heap that has been kept will do. -/
theorem Ready.withHeap (ready : interpreter.Ready threshold session) {heap : Heap}
    (kept : Territory.language.Kept session.heap heap) :
    interpreter.Ready threshold { session with heap := heap } where
  kept := ⟨kept.sound, kept.closed, ready.kept.growth.trans kept.growth⟩
  root := Nat.lt_of_lt_of_le ready.root kept.growth.frames_le
  limit := ready.limit
  threshold := ready.threshold

end Interpreter

/-! ## Evaluation -/

namespace Step

/-- Evaluation yields a value of the language or one of the listed errors. -/
theorem yields_evaluate (e : Expr) :
    Yields interpreter threshold Value.OfLanguage (evaluate e.toValue interpreter.root) := by
  intro session ready
  have permits : Territory.language.Permits
      ⟨session.depthLimit, .eval e.toValue interpreter.root, session.heap⟩ :=
    ⟨Territory.kept_self ready.kept.sound ready.kept.closed, Expr.written_toValue e, trivial, ready.root⟩
  have kept := Territory.kept_heapAfter permits
  simp only [Call.Run.heapAfter, Evaluation.heapAfter] at kept
  simp only [evaluate]
  cases hp : Call.perform session.depthLimit (.eval e.toValue interpreter.root) session.heap with
  | ok value heap =>
      rw [hp] at kept
      exact ⟨ready.withHeap kept, (Territory.value_of_result permits hp).2.1⟩
  | error failure heap =>
      rw [hp] at kept
      cases failure with
      | outOfDepth => exact ⟨ready.withHeap kept, Or.inl rfl⟩
      | error error =>
          refine ⟨ready.withHeap kept, ?_⟩
          rcases error_of_permits permits hp with language | ⟨_, _, meets⟩
          · exact Or.inl language
          · exact Or.inr ⟨error, rfl, Or.inl meets.isDigitLimit⟩

/-- A form that is to be logged can be put into words, unless it is nested too deeply. -/
theorem stops_of_record_evaluating {e : Expr} {error : EvalError}
    (ready : interpreter.Ready threshold session)
    (h : record (.evaluating e.toValue) session = .error (.evaluation error) session) :
    error.Stops threshold := by
  rcases record_ends (.evaluating e.toValue) session with ⟨log, eq⟩ | ⟨failure, eq, serious, why⟩
  · rw [eq] at h
    cases h
  · rw [eq] at h
    cases h
    refine Or.inr ⟨?_, ?_⟩
    · rcases why with ⟨_, deep⟩ | words
      · exact deep
      · have writable := (Expr.written_toValue e).isUnwritable_eq_false
        simp [LogRecord.line?, LogRecord.message?, Value.inspect?, Value.guarded, writable, Except.map]
          at words
    · rw [← ready.threshold]
      revert serious
      cases session.threshold <;> simp [LogRecord.level, LogLevel.rank]

/-- An error can always be logged: its texts are given. -/
theorem record_failed_ok (limit : 0 < session.depthLimit) (kind message : String) :
    ∃ log, record (.failed kind message) session = .ok () { session with log := log } :=
  record_ok_of_flat limit rfl nofun

/-- A path can always be logged. -/
theorem record_running_ok (limit : 0 < session.depthLimit) (path : String) :
    ∃ log, record (.running path) session = .ok () { session with log := log } :=
  record_ok_of_flat limit rfl nofun

/-- A form with its records yields what its evaluation yields. -/
theorem yields_evalForm (e : Expr) :
    Yields interpreter threshold Value.OfLanguage (interpreter.evalForm e.toValue) := by
  intro session ready
  have ends := Interpreter.evalForm_ends interpreter e.toValue session
  generalize interpreter.evalForm e.toValue session = result at ends
  cases ends with
  | @unwritten error h =>
      exact ⟨ready, Or.inr ⟨error, rfl, stops_of_record_evaluating ready h⟩⟩
  | @value log _ _ h =>
      have yields := yields_evaluate e _ (ready.withLog log)
      rw [h] at yields
      exact yields
  | @error log _ _ log' h =>
      have yields := yields_evaluate e _ (ready.withLog log)
      rw [h] at yields
      exact ⟨yields.1.withLog log', yields.2⟩
  | @unreported log error after failure h unlogged =>
      have yields := yields_evaluate e _ (ready.withLog log)
      rw [h] at yields
      obtain ⟨log', logged⟩ := record_failed_ok yields.1.limit error.kind error.message
      rw [logged] at unlogged
      cases unlogged

end Step

/-! ## Source texts -/

namespace TokenStream

/-- A stream of tokens that a source text can have. -/
structure Sourced (stream : TokenStream) : Prop where
  tokens : ∀ token ∈ stream.pending, token.InSource
  failure : ∀ error, stream.failure = some error → error ≠ .emptyAtom

/-- The tokens of a text are such as a text can have. -/
theorem sourced_lex (source : String) : (lex source).Sourced where
  tokens := inSource_of_mem_lex source
  failure error h := by
    rw [lex, Lexer.finish_eq] at h
    simp only [Lexer.openComment] at h
    split at h <;> cases h
    rintro ⟨⟩

theorem Sourced.tail {token : Token} {rest : List Token} {failure : Option ParseError}
    (sourced : Sourced ⟨token :: rest, failure⟩) : Sourced ⟨rest, failure⟩ :=
  ⟨fun token mem => sourced.tokens token (List.mem_cons_of_mem _ mem), sourced.failure⟩

/-- No atom of a text is empty. -/
theorem Sourced.text_ne_empty {token : Token} {rest : List Token} {failure : Option ParseError}
    (sourced : Sourced ⟨token :: rest, failure⟩) (kind : token.kind = .symbol) : token.text ≠ "" := by
  cases sourced.tokens token List.mem_cons_self with
  | opening | closing => cases kind
  | atom _ nonempty isAtom => exact (Token.InSource.atom_ne nonempty isAtom).1

theorem sourced_atEnd {α : Type} {failure : Option ParseError} {answer : Except ParseError α}
    (hfailure : ∀ error, failure = some error → error ≠ .emptyAtom)
    (hanswer : ∀ error, answer = .error error → error ≠ .emptyAtom) :
    (atEnd failure answer).2.Sourced ∧
      ∀ error, (atEnd failure answer).1 = .error error → error ≠ .emptyAtom := by
  cases failure with
  | none => exact ⟨⟨nofun, nofun⟩, hanswer⟩
  | some failure =>
      refine ⟨⟨nofun, nofun⟩, ?_⟩
      rintro _ ⟨⟩
      exact hfailure failure rfl

/-- Reading an expression uses up tokens, and fails for other reasons than an empty atom. -/
theorem sourced_readWithin {failure : Option ParseError} {tokens : List Token}
    (sourced : Sourced ⟨tokens, failure⟩) (opened : List OpenList) :
    (readWithin failure opened tokens).2.Sourced ∧
      ∀ error, (readWithin failure opened tokens).1 = .error error → error ≠ .emptyAtom := by
  fun_induction readWithin failure opened tokens with
  | case1 => exact sourced_atEnd sourced.failure (by rintro _ ⟨⟩)
  | case2 => exact sourced_atEnd sourced.failure (by rintro _ ⟨⟩ ⟨⟩)
  | case3 _ _ _ _ ih | case6 _ _ _ _ _ _ ih | case10 _ _ _ _ _ _ ih => exact ih sourced.tail
  | case4 => exact ⟨sourced, by rintro _ ⟨⟩ ⟨⟩⟩
  | case5 | case8 => exact ⟨sourced.tail, by rintro _ ⟨⟩⟩
  | case7 token _ kind empty | case9 token _ _ _ kind empty =>
      exact absurd empty (sourced.text_ne_empty kind)
  | case11 => exact ⟨sourced.tail, by rintro _ ⟨⟩ ⟨⟩⟩

/-- What is wrong with a stream is an error of the language. -/
theorem Sourced.readExpr {stream : TokenStream} (sourced : stream.Sourced) :
    stream.readExpr.2.Sourced ∧
      ∀ error, stream.readExpr.1 = .error error → (Error.reading error).isOfLanguage = true := by
  obtain ⟨rest, errors⟩ := sourced_readWithin sourced []
  refine ⟨rest, fun error h => ?_⟩
  have := errors error h
  cases error with
  | emptyAtom => exact absurd rfl this
  | _ => rfl

/-- What is wrong with the forms of a stream is an error of the language. -/
theorem Sourced.readRest {stream : TokenStream} (sourced : stream.Sourced) {error : ParseError}
    (h : stream.readRest.2.1 = some error) : (Error.reading error).isOfLanguage = true := by
  fun_induction TokenStream.readRest stream with
  | case1 => cases h
  | case2 stream error' rest hread =>
      cases h
      exact sourced.readExpr.2 _ (congrArg Prod.fst hread)
  | case3 stream e rest hread exprs failure stream' hrest ih =>
      have sourced := sourced.readExpr.1
      rw [hread] at sourced
      rw [hrest] at ih
      exact ih sourced h

/-- What is wrong with a source text is an error of the language. -/
theorem isOfLanguage_of_readAll {source : String} {error : ParseError}
    (h : readAll source = .error error) : (Error.reading error).isOfLanguage = true := by
  refine (sourced_lex source).readRest ?_
  unfold readAll at h
  split at h
  · cases h
  next failure _ hrest =>
    cases h
    rw [hrest]

end TokenStream

namespace Step

/-- The forms of a stream, one after the other. -/
theorem yields_evalStream {stream : TokenStream} (sourced : stream.Sourced) {last : Value}
    (hlast : last.OfLanguage) :
    Yields interpreter threshold Value.OfLanguage (interpreter.evalStream stream last) := by
  induction stream, last using Interpreter.evalStream.induct with
  | case1 stream last error rest h =>
      rw [Interpreter.evalStream_of_error h]
      refine fun session ready => ⟨ready, Or.inl ?_⟩
      exact sourced.readExpr.2 error (congrArg Prod.fst h)
  | case2 stream last rest h =>
      rw [Interpreter.evalStream_of_end h]
      exact fun session ready => ⟨ready, hlast⟩
  | case3 stream last e rest h ih =>
      rw [Interpreter.evalStream_of_form h]
      intro session ready
      have yields := yields_evalForm e session ready
      cases hf : interpreter.evalForm e.toValue session with
      | error error after =>
          rw [hf] at yields
          rw [bind_of_error hf]
          exact yields
      | ok value mid =>
          rw [hf] at yields
          rw [bind_of_ok hf]
          have sourced := sourced.readExpr.1
          rw [h] at sourced
          exact ih value sourced yields.2 mid yields.1

/-- A text yields the value of its last form or one of the listed errors. -/
theorem yields_eval (source : String) :
    Yields interpreter threshold Value.OfLanguage (interpreter.eval source) :=
  yields_evalStream (TokenStream.sourced_lex source) rfl

/-- A value of the language is written, unless it is an integer of too many digits. -/
theorem display_ends {value : Value} (language : value.OfLanguage)
    (ready : interpreter.Ready threshold session) :
    (∃ text, value.display? session.heap = .ok text ∧ display value session = .ok text session) ∨
    ∃ error, display value session = .error (.evaluation error) session ∧ error.Stops threshold := by
  have flat : value.height = 0 := by
    cases value with
    | list items | array items => exact language.elim
    | _ => rfl
  rcases write_ends value.height (fun heap => value.display? heap) session with
    shown | ⟨error, h, why⟩
  · exact Or.inl shown
  · refine Or.inr ⟨error, h, Or.inl ?_⟩
    rcases why with ⟨few, _⟩ | words
    · rw [flat] at few
      exact absurd few (Nat.not_le.mpr ready.limit)
    · rw [(language.display?_error words).1]
      rfl

end Step

end ScopedLisp
