import ScopedLisp.Proofs.Reading.Matching

/-!
# ScopedLisp.Proofs.Reading.Concatenation

Texts in a row.  At the end of a line the lexer is in a gap, unless it is in a comment that
goes on.  So a text that ends with a line end, and can be read, has no influence on how the
text behind it is cut into tokens, but for their places (`lex_append_of_line`).  A reader does
not mind places (`Reader.run_behind`), nor what it completed before; hence what follows is read
as it would be alone, and fails alike, as far behind as there are characters in front
(`readAll_append`).
-/

namespace ScopedLisp

/-! ## The end of a line -/

namespace Lexer

/-- At the end of a line the lexer is in a gap, unless it is in a comment that goes on. -/
theorem mode_of_newline (lexer : Lexer) (closed : (lexer.step '\n').openComment = none) :
    (lexer.step '\n').mode = .gap := by
  obtain ⟨mode, position, tokens⟩ := lexer
  cases mode with
  | gap | lineComment => rfl
  | blockComment start depth before => simp [step, stepBlock, openComment] at closed
  | atom start chars =>
      rw [step_delimiter position start chars tokens rfl]
      rfl

/-- Where a text could end, it could also end with its line. -/
theorem finish_newline (lexer : Lexer) (closed : lexer.openComment = none) :
    (lexer.step '\n').finish = lexer.finish := by
  obtain ⟨mode, position, tokens⟩ := lexer
  cases mode with
  | gap | lineComment => rfl
  | blockComment start depth before => simp [openComment] at closed
  | atom start chars =>
      rw [step_delimiter position start chars tokens rfl, finish]
      simp [step, stepGap, Text.isBlank, finish]

/-- Behind a text that ends with a line end, and does not fail, the lexer is in a gap. -/
theorem ofText_line {a : String} (line : '\n' ∈ a.toList.getLast?)
    (closed : (lex a).failure = none) :
    ofText a = ⟨.gap, a.length, (lex a).pending.toArray⟩ := by
  obtain ⟨cs, hcs⟩ := List.getLast?_eq_some_iff.mp line
  have read : ofText a = (start.run cs).step '\n' := by
    rw [ofText, hcs, run_append]
    rfl
  rw [lex, ← ofText, finish_eq] at closed
  have gap := mode_of_newline (start.run cs) (read ▸ closed)
  rw [← read] at gap
  have position : (ofText a).position = a.length := by
    rw [ofText, position_run, start, Nat.zero_add, String.length_toList]
  have pending : (lex a).pending = (ofText a).tokens.toList := by
    rw [lex, ← ofText, finish_eq, lastAtom, gap, List.append_nil]
  rw [pending, Array.toArray_toList, ← position, ← gap]

end Lexer

/-- A line end at the end of a text changes nothing, if the text does not fail. -/
theorem lex_newline {a : String} (closed : (lex a).failure = none) : lex (a ++ "\n") = lex a := by
  rw [lex, ← Lexer.ofText, Lexer.finish_eq] at closed
  have split : Lexer.ofText (a ++ "\n") = (Lexer.ofText a).step '\n' := by
    rw [Lexer.ofText_append]
    rfl
  rw [lex, ← Lexer.ofText, split, Lexer.finish_newline _ closed]
  rfl

/-- **The tokens of texts in a row** are those of the first, if it ends with a line end and does not
fail, and then those of the second, as far behind. -/
theorem lex_append_of_line {a : String} (line : '\n' ∈ a.toList.getLast?)
    (closed : (lex a).failure = none) (b : String) :
    lex (a ++ b) = ⟨(lex a).pending ++ (lex b).pending.map (Token.shift a.length),
      (lex b).failure.map (ParseError.shift a.length)⟩ := by
  have partition := (partition_lex b).shift a.length
  rw [Nat.zero_add] at partition
  rw [lex, ← Lexer.ofText, Lexer.ofText_append, Lexer.ofText_line line closed]
  exact partition.finish_run _

/-! ## Readers that began before -/

namespace Reader

/-- A reader that began with `done` complete, and `n` characters further on. -/
def behind (done : List Expr) (n : Int) (reader : Reader) : Reader :=
  ⟨reader.done ++ done,
    reader.opened.map fun list => ⟨list.position.map (· + n), list.items⟩⟩

variable (done : List Expr) (n : Int)

theorem behind_push (reader : Reader) (e : Expr) :
    (reader.push e).behind done n = (reader.behind done n).push e := by
  obtain ⟨before, opened⟩ := reader
  cases opened <;> rfl

/-- A token further on is fed as it would have been, and fails as it would have. -/
theorem feed_behind (reader : Reader) (token : Token) :
    (reader.behind done n).feed (token.shift n) =
      ((reader.feed token).map (behind done n)).mapError (ParseError.shift n) := by
  obtain ⟨kind, text, position⟩ := token
  obtain ⟨before, opened⟩ := reader
  cases kind with
  | opening => rfl
  | closing =>
      cases opened with
      | nil => rfl
      | cons inner others => exact congrArg Except.ok (behind_push done n ⟨before, others⟩ _).symm
  | symbol =>
      by_cases empty : text = ""
      · simp [feed, Token.shift, empty, Except.map, Except.mapError, ParseError.shift]
      · simp [feed, Token.shift, empty, Except.map, Except.mapError, behind_push]
  | other name => rfl

/-- **A run further on** ends as it would have ended. -/
theorem run_behind (reader : Reader) (tokens : List Token) :
    (reader.behind done n).run (tokens.map (Token.shift n)) =
      ((reader.run tokens).1.behind done n, (reader.run tokens).2.map (ParseError.shift n)) := by
  induction tokens generalizing reader with
  | nil => rfl
  | cons token tokens ih =>
      have fed := feed_behind done n reader token
      rw [List.map_cons]
      cases hfeed : reader.feed token with
      | ok next =>
          rw [hfeed] at fed
          rw [run_cons_ok fed, run_cons_ok hfeed, ih]
      | error error =>
          rw [hfeed] at fed
          rw [run_cons_error fed, run_cons_error hfeed]
          rfl

theorem ending_behind (reader : Reader) (failure : Option ParseError) :
    (reader.behind done n).ending (failure.map (ParseError.shift n)) =
      (reader.ending failure).map (ParseError.shift n) := by
  obtain ⟨before, opened⟩ := reader
  cases failure with
  | some error => rfl
  | none => cases opened <;> rfl

/-- Reading further on stops as it would have. -/
theorem stop_behind (reader : Reader) (tokens : List Token) (failure : Option ParseError) :
    (reader.behind done n).stop (tokens.map (Token.shift n))
        (failure.map (ParseError.shift n)) =
      (reader.stop tokens failure).map (ParseError.shift n) := by
  rw [stop, run_behind, ending_behind, stop]
  cases (reader.run tokens).2 <;> rfl

end Reader

/-! ## Texts in a row -/

/-- **What was read is done with**: behind a text that could be read, and a line end, everything is
read as it would be alone, and fails as it would, that much further on. -/
theorem readAll_append {a : String} {es : List Expr} (line : '\n' ∈ a.toList.getLast?)
    (h : readAll a = .ok es) (b : String) :
    readAll (a ++ b) = ((readAll b).map (es ++ ·)).mapError (ParseError.shift a.length) := by
  obtain ⟨closed, first⟩ := (readAll_eq_ok_iff a es).mp h
  have began : (⟨es.reverse, []⟩ : Reader) = Reader.start.behind es.reverse a.length := by
    simp [Reader.behind, Reader.start]
  cases read : readAll b with
  | ok fs =>
      obtain ⟨closed', second⟩ := (readAll_eq_ok_iff b fs).mp read
      refine (readAll_eq_ok_iff _ _).mpr ?_
      rw [lex_append_of_line line closed, closed', Reader.run_append first, began,
        Reader.run_behind, second]
      simp [Reader.behind]
  | error error =>
      refine (readAll_eq_error_iff _ _).mpr ?_
      have stopped := (readAll_eq_error_iff b error).mp read
      have further := Reader.stop_behind es.reverse a.length Reader.start (lex b).pending
        (lex b).failure
      rw [stopped, ← began] at further
      rw [lex_append_of_line line closed, Reader.stop, Reader.run_append first]
      exact further

/-- A line end at the end of a text that can be read changes nothing. -/
theorem readAll_newline {a : String} {es : List Expr} (h : readAll a = .ok es) :
    readAll (a ++ "\n") = .ok es := by
  rw [readAll_eq_ok_iff] at h ⊢
  rw [lex_newline h.1]
  exact h

/-- An error of reading a text has a place, which moves with the text. -/
theorem position_of_readAll_error {source : String} {error : ParseError}
    (h : readAll source = .error error) (n : Int) :
    ∃ place : Int, error.position = some place ∧ (error.shift n).position = some (place + n) := by
  rcases cases_of_readAll_error h with ⟨_, place, _, rfl⟩ | ⟨_, _, front, _, _, _, _, rfl⟩ |
    ⟨_, _, place, _, _, rfl⟩
  · exact ⟨place, rfl, rfl⟩
  · exact ⟨front.length, rfl, rfl⟩
  · exact ⟨place, rfl, rfl⟩

/-- **Reading is compositional** over texts with a line end between them.  Behind a text that can be
read, the expressions of the second follow those of the first; or the second fails with the same
error, which lies behind the first text and the line end as far as it lay behind nothing. -/
theorem readAll_newline_append {a : String} {es : List Expr} (h : readAll a = .ok es)
    (b : String) :
    (∀ fs, readAll b = .ok fs → readAll (a ++ "\n" ++ b) = .ok (es ++ fs)) ∧
    ∀ error, readAll b = .error error → ∃ place further, error.position = some place ∧
      readAll (a ++ "\n" ++ b) = .error further ∧
      further.position = some (place + a.length + 1) ∧
      further.reason = error.reason ∧ further.incomplete = error.incomplete ∧
      error.message = error.reason ++ " (at offset " ++ toString place ++ ")" ∧
      further.message =
        error.reason ++ " (at offset " ++ toString (place + a.length + 1) ++ ")" := by
  have whole := readAll_append (a := a ++ "\n") (by simp) (readAll_newline h) b
  have length : ((a ++ "\n").length : Int) = a.length + 1 := by
    rw [String.length_append]
    rfl
  rw [length] at whole
  constructor
  · intro fs read
    rw [whole, read]
    rfl
  · intro error failed
    obtain ⟨place, position, moved⟩ := position_of_readAll_error failed (a.length + 1)
    rw [← Int.add_assoc] at moved
    refine ⟨place, error.shift (a.length + 1), position, ?_, moved, error.reason_shift _,
      error.incomplete_shift _, ?_, ?_⟩
    · rw [whole, failed]
      rfl
    · rw [ParseError.message, position]
    · rw [ParseError.message, moved, ParseError.reason_shift]

/-- A text that ends in a line comment, in front of one with lists and one that closes too many. -/
theorem readAll_newline_append_comment :
    readAll ("(a) #; b" ++ "\n" ++ "c (d)") =
        .ok [.list [.atom "a"], .atom "#", .atom "c", .list [.atom "d"]] ∧
      ∃ place further, (ParseError.unexpectedClosing (some 2)).position = some place ∧
        readAll ("(a) #; b" ++ "\n" ++ "c )") = .error further ∧
        further.position = some (place + ("(a) #; b".length : Int) + 1) ∧
        further.message = "Unexpected ')' (at offset 11)" := by
  have first : readAll "(a) #; b" = .ok [.list [.atom "a"], .atom "#"] := by cbv
  have second : readAll "c (d)" = .ok [.atom "c", .list [.atom "d"]] := by cbv
  have stray : readAll "c )" = .error (.unexpectedClosing (some 2)) := by cbv
  obtain ⟨place, further, position, read, moved, _, _, _, message⟩ :=
    (readAll_newline_append first "c )").2 _ stray
  refine ⟨(readAll_newline_append first "c (d)").1 _ second, place, further, position, read, moved,
    ?_⟩
  cases position
  rw [message]
  decide

end ScopedLisp
