import ScopedLisp.Proofs.Lexing
import ScopedLisp.Token.Stream

/-!
# ScopedLisp.Proofs.Reading

Reading one token at a time.  A `Reader` holds the complete expressions and the lists
that are open; `feed` takes one token, and `run` takes tokens up to the first that
cannot be read.  Main statements:

* reading a whole stream is such a run (`readRest_eq_run`, `readAll_eq_ok_iff`,
  `readAll_eq_error_iff`);
* what a reader holds is exactly what it was fed (`lexemes_run`);
* the tokens of an expression add that expression (`run_spelling`), so that tokens
  are read in one way only (`readAll_eq_ok_iff_spelling`);
* reading one expression is reading all of them and finding one (`read_eq_ok_iff`).

Tokens and expressions are compared through their *lexemes*, which tell a parenthesis
from an atom and leave out the place.
-/

namespace ScopedLisp

/-! ## Lexemes -/

/-- What a token contributes to an expression. -/
inductive Lexeme where
  | opening
  | closing
  | atom (text : String)
  deriving DecidableEq

/-- A lexeme as text. -/
def Lexeme.text : Lexeme → String
  | .opening => "("
  | .closing => ")"
  | .atom text => text

/-- What a token contributes, if reading takes tokens of its kind: an atom needs a text. -/
def Token.lexeme? (token : Token) : Option Lexeme :=
  match token.kind with
  | .opening => some .opening
  | .closing => some .closing
  | .symbol => if token.text = "" then none else some (.atom token.text)
  | .other _ => none

namespace Expr

mutual
/-- The lexemes of an expression, a list between parentheses. -/
def lexemes : Expr → List Lexeme
  | .atom text => [.atom text]
  | .list items => .opening :: (lexemesOf items ++ [.closing])

/-- The lexemes of a row of expressions. -/
def lexemesOf : List Expr → List Lexeme
  | [] => []
  | e :: es => lexemes e ++ lexemesOf es
end

mutual
/-- The texts of the atoms in an expression, from left to right. -/
def atoms : Expr → List String
  | .atom text => [text]
  | .list items => atomsOf items

/-- The texts of the atoms in a row of expressions, from left to right. -/
def atomsOf : List Expr → List String
  | [] => []
  | e :: es => atoms e ++ atomsOf es
end

theorem lexemesOf_append (xs ys : List Expr) :
    lexemesOf (xs ++ ys) = lexemesOf xs ++ lexemesOf ys := by
  induction xs with
  | nil => rfl
  | cons x xs ih => simp [lexemesOf, ih]

mutual
/-- Flattening writes the lexemes as text. -/
theorem flattenBefore_eq : (e : Expr) → (rest : List String) →
    e.flattenBefore rest = e.lexemes.map Lexeme.text ++ rest
  | .atom text, rest => by simp [flattenBefore, lexemes, Lexeme.text]
  | .list items, rest => by
      rw [flattenBefore, flattenItemsBefore_eq items]
      simp [lexemes, Lexeme.text]

theorem flattenItemsBefore_eq : (es : List Expr) → (rest : List String) →
    flattenItemsBefore es rest = (lexemesOf es).map Lexeme.text ++ rest
  | [], rest => by simp [flattenItemsBefore, lexemesOf]
  | e :: es, rest => by
      rw [flattenItemsBefore, flattenItemsBefore_eq es, flattenBefore_eq e]
      simp [lexemesOf]
end

theorem flatMap_flatten (es : List Expr) :
    es.flatMap flatten = (lexemesOf es).map Lexeme.text := by
  induction es with
  | nil => rfl
  | cons e es ih => simp [flatten, flattenBefore_eq, lexemesOf, ih]

theorem atomsOf_eq_flatMap (es : List Expr) : atomsOf es = es.flatMap atoms := by
  induction es with
  | nil => rfl
  | cons e es ih => rw [atomsOf, List.flatMap_cons, ih]

mutual
theorem mem_atoms_iff : (e : Expr) → (text : String) → text ∈ e.atoms ↔ .atom text ∈ e.lexemes
  | .atom other, text => by simp [atoms, lexemes]
  | .list items, text => by simp [atoms, lexemes, mem_atomsOf_iff items text]

/-- The atoms of expressions are those of their lexemes. -/
theorem mem_atomsOf_iff : (es : List Expr) → (text : String) →
    text ∈ atomsOf es ↔ .atom text ∈ lexemesOf es
  | [], text => by simp [atomsOf, lexemesOf]
  | e :: es, text => by
      simp [atomsOf, lexemesOf, mem_atoms_iff e text, mem_atomsOf_iff es text]
end

end Expr

/-! ## Readers -/

/-- Reading at work: the complete expressions, latest first, and the open lists, innermost first. -/
structure Reader where
  done : List Expr
  opened : List OpenList

namespace Reader

/-- Nothing read yet. -/
def start : Reader := ⟨[], []⟩

/-- One more complete expression: an item of the innermost open list, if a list is open. -/
def push (reader : Reader) (e : Expr) : Reader :=
  match reader.opened with
  | [] => ⟨e :: reader.done, []⟩
  | inner :: others => ⟨reader.done, ⟨inner.position, e :: inner.items⟩ :: others⟩

/-- A complete expression opens no list and closes none. -/
theorem length_opened_push (reader : Reader) (e : Expr) :
    (reader.push e).opened.length = reader.opened.length := by
  obtain ⟨done, opened⟩ := reader
  cases opened <;> rfl

/-- Read one token. -/
def feed (reader : Reader) (token : Token) : Except ParseError Reader :=
  match token.kind with
  | .opening => .ok ⟨reader.done, ⟨token.position, []⟩ :: reader.opened⟩
  | .closing =>
    match reader.opened with
    | [] => .error (.unexpectedClosing token.position)
    | inner :: others => .ok (push ⟨reader.done, others⟩ (.list inner.items.reverse))
  | .symbol => if token.text = "" then .error .emptyAtom else .ok (reader.push (.atom token.text))
  | .other name => .error (.unknownToken name token.text token.position)

/-- Read tokens up to the first that cannot be read; the error of that one, if there is one. -/
def run (reader : Reader) : List Token → Reader × Option ParseError
  | [] => (reader, none)
  | token :: rest =>
    match reader.feed token with
    | .ok reader => run reader rest
    | .error error => (reader, some error)

/-- How reading fails where the tokens end, `failure` being how the tokens themselves do. -/
def ending (reader : Reader) (failure : Option ParseError) : Option ParseError :=
  match failure, reader.opened with
  | some error, _ => some error
  | none, inner :: _ => some (.unmatchedOpening inner.position)
  | none, [] => none

theorem run_cons_ok {reader next : Reader} {token : Token} (h : reader.feed token = .ok next)
    (rest : List Token) : reader.run (token :: rest) = next.run rest := by
  rw [run, h]

theorem run_cons_error {reader : Reader} {token : Token} {error : ParseError}
    (h : reader.feed token = .error error) (rest : List Token) :
    reader.run (token :: rest) = (reader, some error) := by
  rw [run, h]

/-- A token in front of those that can be read can be fed. -/
theorem run_cons_eq_ok {reader last : Reader} {token : Token} {rest : List Token}
    (h : reader.run (token :: rest) = (last, none)) :
    ∃ next, reader.feed token = .ok next ∧ next.run rest = (last, none) := by
  cases hfeed : reader.feed token with
  | ok next => exact ⟨next, rfl, run_cons_ok hfeed rest ▸ h⟩
  | error error =>
      rw [run_cons_error hfeed] at h
      cases h

/-- Reading two rows of tokens is reading the second from where the first ends, if it does. -/
theorem run_append_eq (reader : Reader) (tokens rest : List Token) :
    reader.run (tokens ++ rest) =
      match reader.run tokens with
      | (next, none) => next.run rest
      | (next, some error) => (next, some error) := by
  induction tokens generalizing reader with
  | nil => rfl
  | cons token tokens ih =>
      cases hf : reader.feed token with
      | ok mid =>
          rw [List.cons_append, run_cons_ok hf, run_cons_ok hf]
          exact ih mid
      | error error => rw [List.cons_append, run_cons_error hf, run_cons_error hf]

/-- Tokens that can be read leave the rest to the reader that they end with. -/
theorem run_append {reader next : Reader} {tokens : List Token}
    (h : reader.run tokens = (next, none)) (rest : List Token) :
    reader.run (tokens ++ rest) = next.run rest := by
  rw [run_append_eq, h]

/-- What cannot be read cannot be read with more tokens behind it either. -/
theorem run_append_error {reader next : Reader} {tokens : List Token} {error : ParseError}
    (h : reader.run tokens = (next, some error)) (rest : List Token) :
    reader.run (tokens ++ rest) = (next, some error) := by
  rw [run_append_eq, h]

/-- Tokens in front of those that can be read can be read. -/
theorem run_append_eq_ok {reader last : Reader} {tokens rest : List Token}
    (h : reader.run (tokens ++ rest) = (last, none)) :
    ∃ next, reader.run tokens = (next, none) ∧ next.run rest = (last, none) := by
  cases hrun : reader.run tokens with
  | mk next failure =>
      cases failure with
      | none => exact ⟨next, rfl, run_append hrun rest ▸ h⟩
      | some error =>
          rw [run_append_error hrun] at h
          cases h

/-- How reading fails, if it does: at a token, or where the tokens end. -/
def stop (reader : Reader) (tokens : List Token) (failure : Option ParseError) :
    Option ParseError :=
  (reader.run tokens).2.or ((reader.run tokens).1.ending failure)

theorem stop_cons_ok {reader next : Reader} {token : Token} (h : reader.feed token = .ok next)
    (rest : List Token) (failure : Option ParseError) :
    reader.stop (token :: rest) failure = next.stop rest failure := by
  rw [stop, run_cons_ok h, stop]

theorem stop_cons_error {reader : Reader} {token : Token} {error : ParseError}
    (h : reader.feed token = .error error) (rest : List Token) (failure : Option ParseError) :
    reader.stop (token :: rest) failure = some error := by
  rw [stop, run_cons_error h, Option.some_or]

end Reader

/-! ## Streams -/

namespace TokenStream

open Reader

variable (failure : Option ParseError) {done : List Expr} {opened : List OpenList}

/-- A token that cannot be fed ends the reading of an expression. -/
theorem readWithin_cons_error {token : Token} {error : ParseError}
    (h : (⟨done, opened⟩ : Reader).feed token = .error error) (rest : List Token) :
    (readWithin failure opened (token :: rest)).1 = .error error := by
  obtain ⟨kind, text, position⟩ := token
  cases kind with
  | opening => cases h
  | closing =>
      cases opened with
      | nil =>
          cases h
          rfl
      | cons inner others => cases h
  | symbol =>
      simp only [feed] at h
      by_cases empty : text = ""
      · rw [if_pos empty] at h
        cases h
        cases opened <;> simp [readWithin, empty]
      · rw [if_neg empty] at h
        cases h
  | other name =>
      cases h
      cases opened <;> simp [readWithin]

/-- A token that can be fed completes the expression, or reading goes on within the lists that are
open then. -/
theorem readWithin_cons_ok {token : Token} {next : Reader}
    (h : (⟨done, opened⟩ : Reader).feed token = .ok next) (rest : List Token) :
    (∃ e, next = ⟨e :: done, []⟩ ∧
      readWithin failure opened (token :: rest) = (.ok (some e), ⟨rest, failure⟩)) ∨
    (∃ inner others, next = ⟨done, inner :: others⟩ ∧
      readWithin failure opened (token :: rest) = readWithin failure (inner :: others) rest) := by
  obtain ⟨kind, text, position⟩ := token
  cases kind with
  | opening =>
      cases h
      exact Or.inr ⟨_, _, rfl, by simp [readWithin]⟩
  | closing =>
      cases opened with
      | nil => cases h
      | cons inner others =>
          cases h
          cases others with
          | nil => exact Or.inl ⟨_, rfl, by simp [readWithin]⟩
          | cons outer others => exact Or.inr ⟨_, _, rfl, by simp [readWithin]⟩
  | symbol =>
      simp only [feed] at h
      by_cases empty : text = ""
      · rw [if_pos empty] at h
        cases h
      · rw [if_neg empty] at h
        cases h
        cases opened with
        | nil => exact Or.inl ⟨_, rfl, by simp [readWithin, empty]⟩
        | cons inner others => exact Or.inr ⟨_, _, rfl, by simp [readWithin, empty]⟩
  | other name => cases h

/-- Reading one expression feeds a reader up to the end of that expression; or it fails as the
reader does, before a further expression is complete; or there is nothing to read. -/
theorem readWithin_eq_run (done : List Expr) (opened : List OpenList) (tokens : List Token) :
    (∃ e rest, readWithin failure opened tokens = (.ok (some e), ⟨rest, failure⟩) ∧
      (⟨done, opened⟩ : Reader).run tokens = (⟨e :: done, []⟩ : Reader).run rest) ∨
    (∃ error, (readWithin failure opened tokens).1 = .error error ∧
      (⟨done, opened⟩ : Reader).stop tokens failure = some error ∧
      ((⟨done, opened⟩ : Reader).run tokens).1.done = done) ∨
    ((readWithin failure opened tokens).1 = .ok none ∧ opened = [] ∧ tokens = [] ∧
      failure = none) := by
  induction tokens generalizing opened with
  | nil =>
      cases failure with
      | some error =>
          refine Or.inr (Or.inl ⟨error, ?_, rfl, rfl⟩)
          cases opened <;> rfl
      | none =>
          cases opened with
          | nil => exact Or.inr (Or.inr ⟨rfl, rfl, rfl, rfl⟩)
          | cons inner others => exact Or.inr (Or.inl ⟨_, rfl, rfl, rfl⟩)
  | cons token rest ih =>
      cases hf : (⟨done, opened⟩ : Reader).feed token with
      | error error =>
          refine Or.inr (Or.inl ⟨error, readWithin_cons_error failure hf rest, ?_, ?_⟩)
          · exact stop_cons_error hf rest failure
          · rw [run_cons_error hf]
      | ok next =>
          rw [run_cons_ok hf, stop_cons_ok hf]
          rcases readWithin_cons_ok failure hf rest with
            ⟨e, rfl, hread⟩ | ⟨inner, others, rfl, hread⟩
          · exact Or.inl ⟨e, rest, hread, rfl⟩
          · rw [hread]
            rcases ih (inner :: others) with h | h | ⟨_, h, _⟩
            · exact Or.inl h
            · exact Or.inr (Or.inl h)
            · cases h

/-- **Reading is a run**: the expressions of a stream are those that a reader completes, and reading
fails as the reader does. -/
theorem readRest_eq_run (stream : TokenStream) (done : List Expr) :
    ((⟨done, []⟩ : Reader).run stream.pending).1.done = stream.readRest.1.reverse ++ done ∧
      (⟨done, []⟩ : Reader).stop stream.pending stream.failure = stream.readRest.2.1 := by
  fun_induction readRest stream generalizing done with
  | case1 stream rest h =>
      rw [readExpr] at h
      rcases readWithin_eq_run stream.failure done [] stream.pending with
        ⟨e, _, hread, _⟩ | ⟨error, hread, _, _⟩ | ⟨_, _, hpending, hfailure⟩
      · rw [h] at hread
        cases hread
      · rw [h] at hread
        cases hread
      · rw [hpending, hfailure]
        exact ⟨rfl, rfl⟩
  | case2 stream error rest h =>
      rw [readExpr] at h
      rcases readWithin_eq_run stream.failure done [] stream.pending with
        ⟨e, _, hread, _⟩ | ⟨error', hread, hstop, hdone⟩ | ⟨hread, _⟩
      · rw [h] at hread
        cases hread
      · rw [h] at hread
        cases hread
        exact ⟨hdone, hstop⟩
      · rw [h] at hread
        cases hread
  | case3 stream e rest h exprs error last hrest ih =>
      rw [readExpr] at h
      rcases readWithin_eq_run stream.failure done [] stream.pending with
        ⟨e', rest', hread, hrun⟩ | ⟨error', hread, _, _⟩ | ⟨hread, _⟩
      · rw [h] at hread
        cases hread
        obtain ⟨hdone, hstop⟩ := ih (e :: done)
        rw [hrest] at hdone hstop
        rw [stop] at hstop ⊢
        rw [hrun]
        refine ⟨?_, hstop⟩
        rw [hdone]
        simp
      · rw [h] at hread
        cases hread
      · rw [h] at hread
        cases hread

/-- Nothing is there to read exactly where no token is left, and no failure. -/
theorem readExpr_eq_none_iff (stream : TokenStream) :
    stream.readExpr.1 = .ok none ↔ stream.peek.1 = .ok none := by
  obtain ⟨tokens, failure⟩ := stream
  rw [readExpr]
  rcases readWithin_eq_run failure [] [] tokens with
    ⟨e, rest, hread, hrun⟩ | ⟨error, hread, hstop, _⟩ | ⟨hread, _, rfl, rfl⟩
  · cases tokens with
    | nil => cases failure <;> simp [readWithin, atEnd] at hread
    | cons token tokens => simp [hread, peek]
  · cases tokens with
    | nil => cases failure <;> simp_all [readWithin, atEnd, peek]
    | cons token tokens => simp [hread, peek]
  · simp [readWithin, atEnd, peek]

theorem readRest_eq_nil_iff (stream : TokenStream) :
    stream.readRest.1 = [] ∧ stream.readRest.2.1 = none ↔ stream.peek.1 = .ok none := by
  rw [← readExpr_eq_none_iff]
  fun_cases readRest stream with
  | case1 rest h => simp [h]
  | case2 error rest h => simp [h]
  | case3 e rest h exprs error last hrest => simp [h]

end TokenStream

/-! ## Texts -/

namespace Reader

theorem ending_eq_none_iff (reader : Reader) (failure : Option ParseError) :
    reader.ending failure = none ↔ failure = none ∧ reader.opened = [] := by
  obtain ⟨done, opened⟩ := reader
  cases failure <;> cases opened <;> simp [ending]

/-- Reading does not stop where every token can be fed, none fails and no list is left open. -/
theorem stop_eq_none_iff (reader : Reader) (tokens : List Token) (failure : Option ParseError) :
    reader.stop tokens failure = none ↔
      (reader.run tokens).2 = none ∧ failure = none ∧ (reader.run tokens).1.opened = [] := by
  rw [stop, Option.or_eq_none_iff, ending_eq_none_iff]

end Reader

/-- The expressions of a text are those that a reader has completed at the end of its tokens. -/
theorem readAll_eq_ok_iff (source : String) (es : List Expr) :
    readAll source = .ok es ↔
      (lex source).failure = none ∧
        Reader.start.run (lex source).pending = (⟨es.reverse, []⟩, none) := by
  obtain ⟨hdone, hstop⟩ := (lex source).readRest_eq_run []
  rw [List.append_nil] at hdone
  unfold readAll
  generalize hread : (lex source).readRest = result at hdone hstop
  obtain ⟨exprs, error, last⟩ := result
  have hstart : (⟨[], []⟩ : Reader) = Reader.start := rfl
  rw [hstart] at hdone hstop
  cases error with
  | some error =>
      simp only [reduceCtorEq, false_iff]
      rintro ⟨hfailure, hrun⟩
      rw [Reader.stop, hrun, hfailure] at hstop
      cases hstop
  | none =>
      obtain ⟨hok, hfailure, hopened⟩ := (Reader.stop_eq_none_iff ..).mp hstop
      have hrun : Reader.start.run (lex source).pending = (⟨exprs.reverse, []⟩, none) :=
        Prod.ext (by rw [← hdone, ← hopened]) hok
      rw [hrun]
      simp [hfailure]

/-- A text fails to be read with the error at which a reader stops. -/
theorem readAll_eq_error_iff (source : String) (error : ParseError) :
    readAll source = .error error ↔
      Reader.start.stop (lex source).pending (lex source).failure = some error := by
  have hstop := ((lex source).readRest_eq_run []).2
  have hstart : (⟨[], []⟩ : Reader) = Reader.start := rfl
  rw [hstart] at hstop
  rw [hstop, readAll]
  generalize (lex source).readRest = result
  obtain ⟨exprs, error', last⟩ := result
  cases error' <;> simp

/-- One expression is read where it is all that there is to read. -/
theorem read_eq_ok_iff (source : String) (e : Expr) :
    read source = .ok e ↔ readAll source = .ok [e] := by
  unfold read readAll
  generalize lex source = stream
  fun_cases TokenStream.readRest stream with
  | case1 rest h => simp [h]
  | case2 error rest h => simp [h]
  | case3 first rest h exprs error last hrest =>
      have hnil : exprs = [] ∧ error = none ↔ rest.peek.1 = .ok none := by
        rw [← TokenStream.readRest_eq_nil_iff, hrest]
      rw [h]
      by_cases hend : rest.peek.1 = .ok none
      · obtain ⟨rfl, rfl⟩ := hnil.mpr hend
        simp [hend]
      · have hmore : ¬(exprs = [] ∧ error = none) := fun h => hend (hnil.mp h)
        refine iff_of_false (fun hread => ?_) (fun hreadAll => ?_)
        · dsimp only at hread
          split at hread
          · cases hread
          next hpeek => exact hend hpeek
          · split at hread <;> cases hread
        · cases error with
          | none =>
              cases hreadAll
              exact hmore ⟨rfl, rfl⟩
          | some error => cases hreadAll

/-! ## What a reader holds -/

namespace Reader

/-- The lexemes of the open lists: each begins inside the one around it. -/
def openLexemes : List OpenList → List Lexeme
  | [] => []
  | inner :: others => openLexemes others ++ .opening :: Expr.lexemesOf inner.items.reverse

/-- The lexemes of all that a reader holds, in the order in which they were fed. -/
def lexemes (reader : Reader) : List Lexeme :=
  Expr.lexemesOf reader.done.reverse ++ openLexemes reader.opened

theorem lexemes_push (reader : Reader) (e : Expr) :
    (reader.push e).lexemes = reader.lexemes ++ e.lexemes := by
  obtain ⟨done, opened⟩ := reader
  cases opened <;> simp [push, lexemes, openLexemes, Expr.lexemesOf_append, Expr.lexemesOf]

/-- A token that can be fed adds its lexeme. -/
theorem lexemes_feed {reader next : Reader} {token : Token} (h : reader.feed token = .ok next) :
    next.lexemes.map some = reader.lexemes.map some ++ [token.lexeme?] := by
  obtain ⟨kind, text, position⟩ := token
  cases kind with
  | opening =>
      cases h
      simp [lexemes, openLexemes, Token.lexeme?, Expr.lexemesOf]
  | closing =>
      obtain ⟨done, opened⟩ := reader
      cases opened with
      | nil => cases h
      | cons inner others =>
          cases h
          rw [lexemes_push]
          simp [lexemes, openLexemes, Token.lexeme?, Expr.lexemes]
  | symbol =>
      simp only [feed] at h
      by_cases empty : text = ""
      · rw [if_pos empty] at h
        cases h
      · rw [if_neg empty] at h
        cases h
        rw [lexemes_push]
        simp [Token.lexeme?, empty, Expr.lexemes]
  | other name => cases h

/-- **Nothing is lost**: what a reader holds is what it held and the lexemes that it was fed. -/
theorem lexemes_run {reader next : Reader} {tokens : List Token}
    (h : reader.run tokens = (next, none)) :
    next.lexemes.map some = reader.lexemes.map some ++ tokens.map Token.lexeme? := by
  induction tokens generalizing reader with
  | nil =>
      cases h
      simp
  | cons token tokens ih =>
      obtain ⟨mid, hf, hrest⟩ := run_cons_eq_ok h
      rw [ih hrest, lexemes_feed hf]
      simp

/-! ## What is fed -/

theorem foldl_push_cons (done : List Expr) (position : Option Int) (items : List Expr)
    (others : List OpenList) (es : List Expr) :
    es.foldl push ⟨done, ⟨position, items⟩ :: others⟩ =
      ⟨done, ⟨position, es.reverse ++ items⟩ :: others⟩ := by
  induction es generalizing items with
  | nil => rfl
  | cons e es ih => simp [push, ih]

theorem foldl_push_nil (done es : List Expr) :
    es.foldl push ⟨done, []⟩ = ⟨es.reverse ++ done, []⟩ := by
  induction es generalizing done with
  | nil => rfl
  | cons e es ih => simp [push, ih]

theorem feed_opening {token : Token} (h : token.lexeme? = some .opening) (reader : Reader) :
    reader.feed token = .ok ⟨reader.done, ⟨token.position, []⟩ :: reader.opened⟩ := by
  obtain ⟨kind, text, position⟩ := token
  cases kind <;> simp [Token.lexeme?] at h
  rfl

theorem feed_closing {token : Token} (h : token.lexeme? = some .closing) (done : List Expr)
    (inner : OpenList) (others : List OpenList) :
    feed ⟨done, inner :: others⟩ token = .ok (push ⟨done, others⟩ (.list inner.items.reverse)) := by
  obtain ⟨kind, text, position⟩ := token
  cases kind <;> simp [Token.lexeme?] at h
  rfl

theorem feed_atom {token : Token} {text : String} (h : token.lexeme? = some (.atom text))
    (reader : Reader) : reader.feed token = .ok (reader.push (.atom text)) := by
  obtain ⟨kind, text', position⟩ := token
  cases kind <;> simp [Token.lexeme?] at h
  obtain ⟨nonempty, rfl⟩ := h
  simp [feed, nonempty]

mutual
/-- The tokens of an expression add that expression. -/
theorem run_spelling : (e : Expr) → (tokens : List Token) →
    tokens.map Token.lexeme? = e.lexemes.map some → (reader : Reader) →
    reader.run tokens = (reader.push e, none)
  | .atom text, tokens, h, reader => by
      simp only [Expr.lexemes, List.map_cons, List.map_nil, List.map_eq_singleton_iff] at h
      obtain ⟨token, rfl, hatom⟩ := h
      rw [run_cons_ok (feed_atom hatom reader), run]
  | .list items, tokens, h, reader => by
      simp only [Expr.lexemes, List.map_cons, List.map_append, List.map_nil,
        List.map_eq_cons_iff, List.map_eq_append_iff] at h
      obtain ⟨opener, _, rfl, hopener, inside, _, rfl, hinside, closer, _, rfl, hcloser, hnil⟩ := h
      rw [List.map_eq_nil_iff.mp hnil, run_cons_ok (feed_opening hopener reader)]
      rw [run_append (run_spellingOf items inside hinside _), foldl_push_cons]
      rw [run_cons_ok (feed_closing hcloser ..), run]
      simp

/-- The tokens of a row of expressions add them one after the other. -/
theorem run_spellingOf : (es : List Expr) → (tokens : List Token) →
    tokens.map Token.lexeme? = (Expr.lexemesOf es).map some → (reader : Reader) →
    reader.run tokens = (es.foldl push reader, none)
  | [], tokens, h, reader => by
      simp only [Expr.lexemesOf, List.map_nil, List.map_eq_nil_iff] at h
      rw [h]
      rfl
  | e :: es, tokens, h, reader => by
      simp only [Expr.lexemesOf, List.map_append, List.map_eq_append_iff] at h
      obtain ⟨first, others, rfl, hfirst, hothers⟩ := h
      rw [run_append (run_spelling e first hfirst reader)]
      exact run_spellingOf es others hothers (reader.push e)
end

end Reader

namespace TokenStream

open Reader

variable {stream rest : TokenStream} {e : Expr}

/-- What is read has been fed to a reader, which then holds the expression and has no list open. -/
theorem run_of_readWithin {failure : Option ParseError} {opened : List OpenList} {tokens : List Token}
    (h : readWithin failure opened tokens = (.ok (some e), rest)) (done : List Expr) :
    ∃ front, tokens = front ++ rest.pending ∧ rest.failure = failure ∧
      (⟨done, opened⟩ : Reader).run front = (⟨e :: done, []⟩, none) := by
  induction tokens generalizing opened with
  | nil => cases opened <;> cases failure <;> cases h
  | cons token tokens ih =>
      cases hf : (⟨done, opened⟩ : Reader).feed token with
      | error error =>
          have failed := readWithin_cons_error failure hf tokens
          rw [h] at failed
          cases failed
      | ok next =>
          rcases readWithin_cons_ok failure hf tokens with
            ⟨e', rfl, hread⟩ | ⟨inner, others, rfl, hread⟩
          · rw [h] at hread
            cases hread
            exact ⟨[token], rfl, rfl, run_cons_ok hf []⟩
          · rw [hread] at h
            obtain ⟨front, rfl, hfailure, hrun⟩ := ih h
            exact ⟨token :: front, rfl, hfailure, (run_cons_ok hf front).trans hrun⟩

/-- A form takes the tokens that spell it from its stream. -/
theorem spelling_of_readExpr (h : stream.readExpr = (.ok (some e), rest)) :
    ∃ front, stream.pending = front ++ rest.pending ∧ rest.failure = stream.failure ∧
      front.map Token.lexeme? = e.lexemes.map some := by
  obtain ⟨front, split, hfailure, hrun⟩ := run_of_readWithin h []
  refine ⟨front, split, hfailure, ?_⟩
  have hlexemes := lexemes_run hrun
  simpa [lexemes, openLexemes, Expr.lexemesOf] using hlexemes.symm

/-- Where no form can be read, the tokens do not begin with one. -/
theorem noForm_of_readExpr {error : ParseError} (h : stream.readExpr.1 = .error error) (e : Expr)
    (tokens : List Token) (begins : tokens <+: stream.pending) :
    tokens.map Token.lexeme? ≠ e.lexemes.map some := by
  intro spelling
  obtain ⟨more, split⟩ := begins
  -- a reader would have the form at the end, but where reading fails it has none
  have run : Reader.start.run stream.pending = (⟨[e], []⟩ : Reader).run more := by
    rw [← split, run_append (run_spelling e tokens spelling Reader.start)]
    rfl
  have held : ((⟨[e], []⟩ : Reader).run more).1.done =
      (readRest ⟨more, stream.failure⟩).1.reverse ++ [e] :=
    (readRest_eq_run ⟨more, stream.failure⟩ [e]).1
  rcases readWithin_eq_run stream.failure [] [] stream.pending with
    ⟨_, _, hread, _⟩ | ⟨_, _, _, hdone⟩ | ⟨hread, _⟩
  · rw [readExpr, hread] at h
    cases h
  · change (Reader.start.run stream.pending).1.done = [] at hdone
    rw [run, held] at hdone
    simp at hdone
  · rw [readExpr, hread] at h
    cases h

end TokenStream

/-- Tokens that spell expressions are read as these, and as nothing else. -/
theorem readAll_eq_ok_iff_spelling (source : String) (es : List Expr) :
    readAll source = .ok es ↔
      (lex source).failure = none ∧
        (lex source).pending.map Token.lexeme? = (Expr.lexemesOf es).map some := by
  rw [readAll_eq_ok_iff]
  refine and_congr_right fun _ => ⟨fun hrun => ?_, fun spelling => ?_⟩
  · have hlexemes := Reader.lexemes_run hrun
    simpa [Reader.lexemes, Reader.openLexemes, Reader.start, Expr.lexemesOf] using hlexemes.symm
  · rw [Reader.run_spellingOf es _ spelling, Reader.start, Reader.foldl_push_nil, List.append_nil]

/-! ## Lexemes of a source text -/

/-- The lexeme with the given text: an atom, unless the text is a parenthesis. -/
def Lexeme.ofText (text : String) : Lexeme :=
  if text = "(" then .opening else if text = ")" then .closing else .atom text

theorem Lexeme.text_ofText (text : String) : (ofText text).text = text := by
  unfold ofText
  split
  next h => exact h.symm
  split
  next h => exact h.symm
  · rfl

theorem Lexeme.ofText_text {lexeme : Lexeme}
    (h : ∀ text, lexeme = .atom text → text ≠ "(" ∧ text ≠ ")") : ofText lexeme.text = lexeme := by
  cases lexeme with
  | opening => rfl
  | closing => rfl
  | atom text =>
      obtain ⟨hopening, hclosing⟩ := h text rfl
      rw [Lexeme.text, ofText, if_neg hopening, if_neg hclosing]

/-- An atom that can be written is not empty and no parenthesis. -/
theorem Token.InSource.atom_ne {chars : List Char} (nonempty : chars ≠ [])
    (isAtom : Lexer.IsAtom chars) :
    String.ofList chars ≠ "" ∧ String.ofList chars ≠ "(" ∧ String.ofList chars ≠ ")" := by
  have parenthesis (c : Char) (hc : Lexer.isDelimiter c = true) :
      String.ofList chars ≠ String.ofList [c] := by
    intro heq
    rw [String.ofList_injective heq] at isAtom
    rw [isAtom.1 c (List.mem_singleton_self c)] at hc
    cases hc
  exact ⟨mt String.ofList_eq_empty_iff.mp nonempty, parenthesis '(' rfl, parenthesis ')' rfl⟩

/-- In a source text the text of a token tells its lexeme. -/
theorem Token.InSource.lexeme?_eq {token : Token} (h : token.InSource) :
    token.lexeme? = some (.ofText token.text) := by
  cases h with
  | opening position => rfl
  | closing position => rfl
  | atom position nonempty isAtom =>
      obtain ⟨hempty, hopening, hclosing⟩ := atom_ne nonempty isAtom
      simp [lexeme?, symbol, Lexeme.ofText, hempty, hopening, hclosing]

/-- A token of a source text that cannot be fed is a closing parenthesis where no list is open. -/
theorem Reader.feed_error_of_inSource {token : Token} (htoken : token.InSource) {reader : Reader}
    {error : ParseError} (h : reader.feed token = .error error) :
    ∃ place, token = .closing place ∧ reader.opened = [] ∧
      error = .unexpectedClosing (some place) := by
  cases htoken with
  | opening position => cases h
  | closing position =>
      obtain ⟨done, opened⟩ := reader
      cases opened with
      | nil =>
          cases h
          exact ⟨_, rfl, rfl, rfl⟩
      | cons inner others => cases h
  | atom position nonempty isAtom =>
      have hempty := (Token.InSource.atom_ne nonempty isAtom).1
      rw [feed, Token.symbol, if_neg hempty] at h
      cases h

/-- Where the tokens of a text do not fail, it is read as the expressions whose lexemes the texts of
its tokens tell, and as nothing else. -/
theorem readAll_eq_ok_iff_texts (source : String) (es : List Expr) :
    readAll source = .ok es ↔
      (lex source).failure = none ∧
        ((lex source).pending.map Token.text).map Lexeme.ofText = Expr.lexemesOf es := by
  rw [readAll_eq_ok_iff_spelling]
  have hlexemes : (lex source).pending.map Token.lexeme? =
      (((lex source).pending.map Token.text).map Lexeme.ofText).map some := by
    simp only [List.map_map]
    exact List.map_congr_left fun token mem => (inSource_of_mem_lex source token mem).lexeme?_eq
  rw [hlexemes, List.map_inj_right fun _ _ => Option.some.inj]

end ScopedLisp
