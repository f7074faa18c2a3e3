import ScopedLisp.Proofs.Reading

/-!
# ScopedLisp.Proofs.Reading.Completion

What more text can do for a text that cannot be read.

* Where the text ended too early, a suffix completes it: the end of a line for an atom
  or a line comment, `|#` for every open comment (`exists_run_gap`), and then a closing
  parenthesis for every open list (`run_closings`).
* A token that cannot be fed is there whatever follows: the lexer keeps the tokens that
  it has found, and an atom that is still growing can always be fed (`run_lastAtom`).
-/

namespace ScopedLisp

/-! ## Ending what the lexer is in -/

namespace Lexer

/-- One closer more, kept apart from what came before by the end of a line. -/
theorem run_closer (start depth : Nat) (before : Option Char) (position : Nat)
    (tokens : Array Token) :
    run ⟨.blockComment start depth before, position, tokens⟩ ['\n', '|', '#'] =
      ⟨if depth ≤ 1 then .gap else .blockComment start (depth - 1) none, position + 3, tokens⟩ := by
  simp [step, stepBlock]

/-- Open comments can be closed, all of them. -/
theorem exists_run_blockComment (start depth : Nat) (before : Option Char) (position : Nat)
    (tokens : Array Token) :
    ∃ cs last, run ⟨.blockComment start depth before, position, tokens⟩ cs =
      ⟨.gap, last, tokens⟩ := by
  induction depth generalizing before position with
  | zero => exact ⟨['\n', '|', '#'], position + 3, run_closer ..⟩
  | succ depth ih =>
      have hcloser := run_closer start (depth + 1) before position tokens
      by_cases hlast : depth + 1 ≤ 1
      · rw [if_pos hlast] at hcloser
        exact ⟨['\n', '|', '#'], position + 3, hcloser⟩
      · rw [if_neg hlast, Nat.add_sub_cancel] at hcloser
        obtain ⟨cs, last, hcs⟩ := ih none (position + 3)
        refine ⟨['\n', '|', '#'] ++ cs, last, ?_⟩
        rw [run_append, hcloser, hcs]

/-- Whatever a lexer is in can be ended: it is in a gap then, behind the atom that it was in. -/
theorem exists_run_gap (lexer : Lexer) :
    ∃ cs, (lexer.run cs).mode = .gap ∧
      (lexer.run cs).tokens.toList = lexer.tokens.toList ++ lexer.lastAtom := by
  obtain ⟨mode, position, tokens⟩ := lexer
  cases mode with
  | gap => exact ⟨[], rfl, by simp [lastAtom]⟩
  | lineComment => exact ⟨['\n'], by simp [step], by simp [step, lastAtom]⟩
  | blockComment start depth before =>
      obtain ⟨cs, last, hcs⟩ := exists_run_blockComment start depth before position tokens
      refine ⟨cs, ?_, ?_⟩
      · rw [hcs]
      · rw [hcs]
        simp [lastAtom]
  | atom start chars =>
      have hstep : run ⟨.atom start chars, position, tokens⟩ ['\n'] =
          ⟨.gap, position + 1, tokens.push (atomToken start chars)⟩ := by
        rw [run_cons, run_nil, step_delimiter position start chars tokens rfl]
        rfl
      exact ⟨['\n'], by rw [hstep], by rw [hstep]; simp [lastAtom]⟩

/-- In a gap a text may end. -/
theorem finish_gap {lexer : Lexer} (h : lexer.mode = .gap) :
    lexer.finish = ⟨lexer.tokens.toList, none⟩ := by
  rw [finish, h]

/-- Behind a gap, one closing parenthesis for every open list leaves no list open. -/
theorem run_closings {lexer : Lexer} {reader : Reader} (hgap : lexer.mode = .gap)
    (hrun : Reader.start.run lexer.tokens.toList = (reader, none)) {n : Nat}
    (hlength : reader.opened.length = n) :
    ∃ es, (lexer.run (List.replicate n ')')).mode = .gap ∧
      Reader.start.run (lexer.run (List.replicate n ')')).tokens.toList = (⟨es, []⟩, none) := by
  induction n generalizing lexer reader with
  | zero =>
      obtain ⟨done, opened⟩ := reader
      cases List.length_eq_zero_iff.mp hlength
      exact ⟨done, hgap, hrun⟩
  | succ n ih =>
      obtain ⟨mode, position, tokens⟩ := lexer
      cases hgap
      obtain ⟨done, opened⟩ := reader
      cases opened with
      | nil => cases hlength
      | cons inner others =>
          rw [List.replicate_succ, run_cons]
          have hstep : step ⟨.gap, position, tokens⟩ ')' =
              ⟨.gap, position + 1, tokens.push (.closing position)⟩ := rfl
          rw [hstep]
          have hclosed : Reader.start.run (tokens.push (.closing position)).toList =
              (Reader.push ⟨done, others⟩ (.list inner.items.reverse), none) := by
            rw [Array.toList_push, Reader.run_append hrun]
            rfl
          refine ih rfl hclosed ?_
          rw [Reader.length_opened_push]
          simpa using hlength

/-- The atom that a lexer is in can be fed. -/
theorem run_lastAtom {lexer : Lexer} (h : lexer.Sound) (reader : Reader) :
    (reader.run lexer.lastAtom).2 = none := by
  obtain ⟨mode, position, tokens⟩ := lexer
  cases mode with
  | gap | lineComment | blockComment => rfl
  | atom start chars =>
      have htoken := h.inSource_of_mem_lastAtom (atomToken start chars) (List.mem_singleton_self _)
      cases hf : reader.feed (atomToken start chars) with
      | ok next => rw [lastAtom, Reader.run_cons_ok hf, Reader.run]
      | error error =>
          obtain ⟨place, hclosing, _⟩ := Reader.feed_error_of_inSource htoken hf
          cases hclosing

end Lexer

/-! ## Errors -/

namespace Reader

/-- Where the tokens of a text end, more text could always help. -/
theorem incomplete_of_ending {source : String} {reader : Reader} {error : ParseError}
    (h : reader.ending (lex source).failure = some error) : error.incomplete = true := by
  rw [lex, ← Lexer.ofText, Lexer.finish_eq] at h
  obtain ⟨done, opened⟩ := reader
  cases hmode : (Lexer.ofText source).mode with
  | gap | lineComment | atom =>
      rw [Lexer.openComment, hmode] at h
      cases opened with
      | nil => cases h
      | cons inner others =>
          cases h
          rfl
  | blockComment start depth before =>
      rw [Lexer.openComment, hmode] at h
      cases h
      rfl

/-- Tokens of a source text that cannot be read hold a closing parenthesis too many. -/
theorem run_error_of_inSource {tokens : List Token} (htokens : ∀ token ∈ tokens, token.InSource)
    {reader last : Reader} {error : ParseError} (h : reader.run tokens = (last, some error)) :
    ∃ place, error = .unexpectedClosing (some place) := by
  induction tokens generalizing reader with
  | nil => cases h
  | cons token tokens ih =>
      cases hf : reader.feed token with
      | ok next =>
          rw [run_cons_ok hf] at h
          exact ih (fun other mem => htokens other (List.mem_cons_of_mem token mem)) h
      | error error =>
          rw [run_cons_error hf] at h
          cases h
          obtain ⟨place, _, _, herror⟩ :=
            feed_error_of_inSource (htokens token List.mem_cons_self) hf
          exact ⟨place, herror⟩

end Reader

/-! ## Suffixes -/

theorem lex_append (source : String) (cs : List Char) :
    lex (source ++ String.ofList cs) = ((Lexer.ofText source).run cs).finish := by
  rw [lex, ← Lexer.ofText, Lexer.ofText_append, String.toList_ofList]

/-- Where every token can be fed, some suffix completes the text. -/
theorem exists_readAll_append (source : String)
    (h : (Reader.start.run (lex source).pending).2 = none) :
    ∃ suffix es, readAll (source ++ suffix) = .ok es := by
  obtain ⟨cs, hgap, htokens⟩ := (Lexer.ofText source).exists_run_gap
  have hpending : (lex source).pending = ((Lexer.ofText source).run cs).tokens.toList := by
    rw [htokens, lex, ← Lexer.ofText, Lexer.finish_eq]
  cases hrun : Reader.start.run (lex source).pending with
  | mk reader error =>
      rw [hrun] at h
      cases h
      rw [hpending] at hrun
      obtain ⟨done, hgap', hrun'⟩ := Lexer.run_closings hgap hrun rfl
      refine ⟨String.ofList (cs ++ List.replicate reader.opened.length ')'), done.reverse, ?_⟩
      rw [readAll_eq_ok_iff, lex_append, Lexer.run_append, Lexer.finish_gap hgap']
      refine ⟨rfl, ?_⟩
      rw [List.reverse_reverse]
      exact hrun'

/-- A token that cannot be fed is there, and cannot be fed, in every longer text. -/
theorem readAll_append_error (source suffix : String) {last : Reader} {error : ParseError}
    (h : Reader.start.run (lex source).pending = (last, some error)) :
    readAll (source ++ suffix) = .error error := by
  rw [lex, ← Lexer.ofText, Lexer.finish_eq] at h
  have hfound : Reader.start.run (Lexer.ofText source).tokens.toList = (last, some error) := by
    cases hrun : Reader.start.run (Lexer.ofText source).tokens.toList with
    | mk mid failure =>
        cases failure with
        | none =>
            -- only the atom at the end would be left to fail
            have hatom := Lexer.run_lastAtom (Lexer.sound_ofText source) mid
            rw [Reader.run_append hrun] at h
            rw [h] at hatom
            cases hatom
        | some other => rw [← hrun, ← h, Reader.run_append_error hrun, hrun]
  obtain ⟨more, hmore⟩ := (Lexer.ofText source).tokens_prefix_run suffix.toList
  rw [readAll_eq_error_iff, Reader.stop, lex, ← Lexer.ofText, Lexer.ofText_append, Lexer.finish_eq,
    ← hmore, List.append_assoc, Reader.run_append_error hfound, Option.some_or]

/-- **An error is incomplete exactly if more text can help.**  If it is, some suffix makes the text
one that can be read; if it is not, it names a closing parenthesis, and reading fails with the same
error, at the same place, whatever follows. -/
theorem incomplete_iff_completable (source : String) (error : ParseError)
    (h : readAll source = .error error) :
    (error.incomplete = true → ∃ suffix es, readAll (source ++ suffix) = .ok es) ∧
    (error.incomplete = false →
      (∃ place, error = .unexpectedClosing (some place)) ∧
        ∀ suffix, readAll (source ++ suffix) = .error error) := by
  rw [readAll_eq_error_iff, Reader.stop] at h
  cases hrun : Reader.start.run (lex source).pending with
  | mk last failure =>
      cases failure with
      | some other =>
          rw [hrun, Option.some_or] at h
          cases h
          obtain ⟨place, rfl⟩ := Reader.run_error_of_inSource (inSource_of_mem_lex source) hrun
          constructor
          · intro hincomplete
            cases hincomplete
          · intro _
            exact ⟨⟨place, rfl⟩, fun suffix => readAll_append_error source suffix hrun⟩
      | none =>
          refine ⟨fun _ => exists_readAll_append source (by rw [hrun]), fun hcomplete => ?_⟩
          rw [hrun, Option.none_or] at h
          rw [Reader.incomplete_of_ending h] at hcomplete
          cases hcomplete

/-- An open comment in an open list, and a closing parenthesis too many in front of one. -/
theorem incomplete_iff_completable_comment :
    (∃ suffix es, readAll ("(a #| #| b" ++ suffix) = .ok es) ∧
      ∀ suffix, readAll ("a) #| b" ++ suffix) = .error (.unexpectedClosing (some 1)) := by
  have hopen : readAll "(a #| #| b" = .error (.unterminatedComment 3) := by cbv
  have hstray : readAll "a) #| b" = .error (.unexpectedClosing (some 1)) := by cbv
  exact ⟨(incomplete_iff_completable _ _ hopen).1 rfl,
    ((incomplete_iff_completable _ _ hstray).2 rfl).2⟩

end ScopedLisp
