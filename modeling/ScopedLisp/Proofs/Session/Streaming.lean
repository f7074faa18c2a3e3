import ScopedLisp.Proofs.Reading
import ScopedLisp.Proofs.Session.Forms

/-!
# ScopedLisp.Proofs.Session.Streaming

Evaluation while reading.  A source text is read form by form, and each form is evaluated before the next
one is looked at.  This comes to the same as reading the whole text first and evaluating its forms
afterwards, one after the other (`Interpreter.evalStream_eq`); only where the text cannot be read have
the forms in front of the fault been evaluated already.

`TokenStream.StopsAfter` says which forms these are: those that the tokens spell before the form, the
closing parenthesis or the comment that is at fault.
-/

namespace ScopedLisp

namespace TokenStream

open Reader

/-! ## Where reading stops -/

/-- The tokens of a stream spell `es` in `front`.  In `rest` no further form is complete, and to read on
there fails. -/
structure StopsAfter (stream : TokenStream) (es : List Expr) (error : ParseError)
    (front rest : List Token) : Prop where
  split : stream.pending = front ++ rest
  spelling : front.map Token.lexeme? = (Expr.lexemesOf es).map some
  noForm : ∀ e tokens, tokens <+: rest → tokens.map Token.lexeme? ≠ (Expr.lexemes e).map some
  fails : (readExpr ⟨rest, stream.failure⟩).1 = .error error

variable {stream rest : TokenStream} {e : Expr}

/-- A text that cannot be read stops its stream with the same error. -/
theorem readRest_of_readAll_error {source : String} {error : ParseError}
    (h : readAll source = .error error) : (lex source).readRest.2.1 = some error := by
  unfold readAll at h
  split at h
  · cases h
  next read =>
    cases h
    exact congrArg (·.2.1) read

/-- A stream that cannot be read to its end stops after the forms that were read. -/
theorem exists_stopsAfter {error : ParseError} (h : stream.readRest.2.1 = some error) :
    ∃ front rest, stream.StopsAfter stream.readRest.1 error front rest := by
  fun_induction readRest stream with
  | case1 => cases h
  | case2 stream error' left read =>
      cases h
      have fails : stream.readExpr.1 = .error error := by rw [read]
      exact ⟨[], stream.pending, rfl, rfl, noForm_of_readExpr fails, fails⟩
  | case3 stream e left read exprs failure last hrest ih =>
      obtain ⟨first, split, hfailure, spelling⟩ := spelling_of_readExpr read
      rw [hrest] at ih
      obtain ⟨front, rest, stops⟩ := ih h
      refine ⟨first ++ front, rest, ?_, ?_, stops.noForm, ?_⟩
      · rw [split, stops.split, List.append_assoc]
      · rw [List.map_append, spelling, stops.spelling, Expr.lexemesOf, List.map_append]
      · rw [← hfailure]
        exact stops.fails

/-- A stream stops after no other forms than those that were read. -/
theorem StopsAfter.readRest_eq {es : List Expr} {error : ParseError} {front rest : List Token}
    (stops : stream.StopsAfter es error front rest) : stream.readRest.1 = es := by
  have nothing : (readRest ⟨rest, stream.failure⟩).1 = [] := by
    have fails := stops.fails
    fun_cases readRest ⟨rest, stream.failure⟩ with
    | case1 left read => rfl
    | case2 error left read => rfl
    | case3 e left read =>
        rw [read] at fails
        cases fails
  have run : Reader.start.run stream.pending = (⟨es.reverse, []⟩ : Reader).run rest := by
    rw [stops.split, run_append (run_spellingOf es front stops.spelling Reader.start), Reader.start,
      foldl_push_nil, List.append_nil]
  have whole := (readRest_eq_run stream []).1
  have others := (readRest_eq_run ⟨rest, stream.failure⟩ es.reverse).1
  rw [nothing] at others
  change (Reader.start.run stream.pending).1.done = _ at whole
  rw [run, others] at whole
  simpa using whole.symm

end TokenStream

/-! ## Evaluation of forms in a row -/

namespace Interpreter

variable (interpreter : Interpreter)

/-- Evaluate forms one after the other, up to the first that fails; the value is that of the last one, and
`last` if there is none. -/
def evalForms (es : List Expr) (last : Value) : Step Value :=
  es.foldlM (fun _ e => interpreter.evalForm e.toValue) last

/-- To evaluate a stream is to evaluate all that can be read of it, and then to fail if there is more. -/
theorem evalStream_eq (stream : TokenStream) (last : Value) :
    interpreter.evalStream stream last =
      interpreter.evalForms stream.readRest.1 last >>= fun value =>
        match stream.readRest.2.1 with
        | none => pure value
        | some error => throw (.reading error) := by
  fun_induction TokenStream.readRest stream generalizing last with
  | case1 stream left read =>
      rw [evalStream_of_end read]
      rfl
  | case2 stream error left read =>
      rw [evalStream_of_error read]
      rfl
  | case3 stream e left read exprs failure final hrest ih =>
      rw [hrest] at ih
      rw [evalStream_of_form read, evalForms, List.foldlM_cons, bind_assoc]
      congr 1
      funext value
      exact ih value

/-- A text that can be read is evaluated form by form. -/
theorem eval_of_readAll {source : String} {es : List Expr} (reads : readAll source = .ok es) :
    interpreter.eval source = interpreter.evalForms es .nil := by
  obtain ⟨final, read⟩ := readRest_of_readAll reads
  rw [eval, interpreter.evalStream_eq, read]
  exact bind_pure _

/-- The evaluation of a text of one form is that of the form. -/
theorem eval_of_readAll_singleton {source : String} {e : Expr} (reads : readAll source = .ok [e]) :
    interpreter.eval source = interpreter.evalForm e.toValue := by
  rw [interpreter.eval_of_readAll reads, evalForms, List.foldlM_cons]
  exact bind_pure _

/-- **Reading first**: where a source text can be read, to evaluate it is to evaluate its expressions one
after the other.  Where it cannot be read, its forms are evaluated up to the one, the closing parenthesis
or the comment that is at fault; if none of them fails, the evaluation ends with the error of reading, and
in the session that they leave. -/
theorem eval_reading (source : String) :
    (∀ es, readAll source = .ok es → interpreter.eval source = interpreter.evalForms es .nil) ∧
    ∀ error, readAll source = .error error →
      (∃ es front rest, (lex source).StopsAfter es error front rest) ∧
      ∀ es front rest, (lex source).StopsAfter es error front rest →
        interpreter.eval source =
          interpreter.evalForms es .nil >>= fun _ => throw (.reading error) := by
  refine ⟨fun es reads => interpreter.eval_of_readAll reads, fun error h => ?_⟩
  have failed := TokenStream.readRest_of_readAll_error h
  refine ⟨⟨_, TokenStream.exists_stopsAfter failed⟩, fun es front rest stops => ?_⟩
  rw [eval, interpreter.evalStream_eq, failed, stops.readRest_eq]

/-- A definition stands in front of a list that is never closed: it is made, and the evaluation fails. -/
theorem eval_reading_unclosed :
    (Interpreter.mk 0).eval "(define x 1) (+ x" =
      (Interpreter.mk 0).evalForms [.list [.atom "define", .atom "x", .atom "1"]] .nil >>= fun _ =>
        throw (.reading (.unmatchedOpening (some 13))) := by
  have read : readAll "(define x 1) (+ x" = .error (.unmatchedOpening (some 13)) := by
    rw [readAll_eq_error_iff]
    rfl
  have fails : (TokenStream.readExpr ⟨(lex "(define x 1) (+ x").pending.drop 5, none⟩).1 =
      .error (.unmatchedOpening (some 13)) := by rfl
  exact ((Interpreter.mk 0).eval_reading _).2 _ read |>.2 _ ((lex "(define x 1) (+ x").pending.take 5)
    _ ⟨(List.take_append_drop 5 _).symm, by rfl, TokenStream.noForm_of_readExpr fails, fails⟩

end Interpreter

end ScopedLisp
