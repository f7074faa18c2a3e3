import ScopedLisp.Expr
import ScopedLisp.Token.Lexer

/-!
# ScopedLisp.Token.Stream

Expressions from a stream of tokens, one at a time, so that what comes first can be
used before what comes later is looked at.  Open lists are kept on an explicit
stack: no nesting is too deep to be read.

Each operation answers together with the stream that is left.  A closing parenthesis
where an expression should begin stays in the stream; every other token looked at by
`readExpr` is used up, also when reading fails.
-/

namespace ScopedLisp

/-- An open list: where it was opened, and its items so far, latest first. -/
structure OpenList where
  position : Option Int
  items : List Expr

namespace TokenStream

/-- How a used-up stream answers: with its failure, the first time, or with `answer`. -/
def atEnd {α : Type} (failure : Option ParseError) (answer : Except ParseError α) :
    Except ParseError α × TokenStream :=
  match failure with
  | some error => (.error error, ⟨[], none⟩)
  | none => (answer, ⟨[], none⟩)

/-- The next token, which stays in the stream; `none` at the end. -/
def peek (stream : TokenStream) : Except ParseError (Option Token) × TokenStream :=
  match stream.pending with
  | [] => atEnd stream.failure (.ok none)
  | token :: _ => (.ok (some token), stream)

/-- The next token, taken out of the stream; `none` at the end. -/
def advance (stream : TokenStream) : Except ParseError (Option Token) × TokenStream :=
  match stream.pending with
  | [] => atEnd stream.failure (.ok none)
  | token :: rest => (.ok (some token), ⟨rest, stream.failure⟩)

/-- Read on with the lists in `opened` open, innermost first, until an expression is
complete. -/
def readWithin (failure : Option ParseError) :
    (opened : List OpenList) → List Token → Except ParseError (Option Expr) × TokenStream
  | [], [] => atEnd failure (.ok none)
  | inner :: _, [] => atEnd failure (.error (.unmatchedOpening inner.position))
  | opened, token :: rest =>
    match token.kind, opened with
    | .opening, _ => readWithin failure (⟨token.position, []⟩ :: opened) rest
    | .closing, [] => (.error (.unexpectedClosing token.position), ⟨token :: rest, failure⟩)
    | .closing, [inner] => (.ok (some (.list inner.items.reverse)), ⟨rest, failure⟩)
    | .closing, inner :: outer :: others =>
      readWithin failure (⟨outer.position, .list inner.items.reverse :: outer.items⟩ :: others) rest
    | .symbol, [] =>
      if token.text = "" then (.error .emptyAtom, ⟨rest, failure⟩)
      else (.ok (some (.atom token.text)), ⟨rest, failure⟩)
    | .symbol, inner :: others =>
      if token.text = "" then (.error .emptyAtom, ⟨rest, failure⟩)
      else readWithin failure (⟨inner.position, .atom token.text :: inner.items⟩ :: others) rest
    | .other name, _ => (.error (.unknownToken name token.text token.position), ⟨rest, failure⟩)

/-- The next expression; `none` at the end of the stream. -/
def readExpr (stream : TokenStream) : Except ParseError (Option Expr) × TokenStream :=
  readWithin stream.failure [] stream.pending

/-- An expression that was read has used up a token. -/
theorem length_readWithin {failure : Option ParseError} {opened : List OpenList}
    {tokens : List Token} {e : Expr} {rest : TokenStream}
    (h : readWithin failure opened tokens = (.ok (some e), rest)) :
    rest.pending.length < tokens.length := by
  fun_induction readWithin failure opened tokens
  case case1 | case2 => cases failure <;> simp [atEnd] at h
  all_goals grind

theorem length_readExpr {stream rest : TokenStream} {e : Expr}
    (h : stream.readExpr = (.ok (some e), rest)) : rest.pending.length < stream.pending.length :=
  length_readWithin h

/-- Every expression up to the end of the stream or the first failure, and that failure. -/
def readRest (stream : TokenStream) : List Expr × Option ParseError × TokenStream :=
  match _h : stream.readExpr with
  | (.ok none, rest) => ([], none, rest)
  | (.error error, rest) => ([], some error, rest)
  | (.ok (some e), rest) =>
    let (exprs, failure, stream) := readRest rest
    (e :: exprs, failure, stream)
termination_by stream.pending.length
decreasing_by exact length_readExpr _h

end TokenStream

/-- Every top-level expression of a source text. -/
def readAll (source : String) : Except ParseError (List Expr) :=
  match (lex source).readRest with
  | (exprs, none, _) => .ok exprs
  | (_, some error, _) => .error error

/-- The one expression of a source text; a failure if there is none, or anything behind it. -/
def read (source : String) : Except ParseError Expr :=
  match (lex source).readExpr with
  | (.error error, _) => .error error
  | (.ok none, _) => .error .emptyInput
  | (.ok (some e), rest) =>
    match rest.peek.1 with
    | .error error => .error error
    | .ok none => .ok e
    | .ok (some token) =>
      if token.kind = .closing then .error (.unexpectedClosing token.position)
      else .error (.trailingInput token.position)

end ScopedLisp
