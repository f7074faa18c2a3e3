import ScopedLisp.ParseError
import ScopedLisp.Token
import ScopedLisp.Text.Blank

/-!
# ScopedLisp.Token.Lexer

Source text into tokens, one character at a time.  Between characters the lexer is
in one of four modes:

1. in a gap between tokens;
2. in a `;` comment, which ends with its line;
3. in a `#|` comment, which nests and ends with the matching `|#`;
4. in an atom, which goes on until white space, a parenthesis or `;`.

A `#|` opens a comment only where a token may start: `a#|b` is one atom.  Because a
run is a fold over the characters, running over `a ++ b` is running over `a` and
then over `b` (`run_append`).
-/

namespace ScopedLisp

open Text

namespace Lexer

/-- Does `c` end an atom? -/
def isDelimiter (c : Char) : Bool := isBlank c || c == '(' || c == ')' || c == ';'

/-- Where the lexer stands between two characters. -/
inductive Mode where
  /-- Between tokens. -/
  | gap
  /-- In a comment that ends with the line. -/
  | lineComment
  /-- In a comment opened at `start`, with `depth` openers to close; `before` is the
  character just read, unless it was the second half of an opener or a closer. -/
  | blockComment (start depth : Nat) (before : Option Char)
  /-- In an atom that begins at `start`; its characters so far, latest first. -/
  | atom (start : Nat) (chars : List Char)
  deriving DecidableEq, Repr, Inhabited

end Lexer

/-- A lexer at work: its mode, the number of characters read and the tokens found. -/
structure Lexer where
  mode : Lexer.Mode
  position : Nat
  tokens : Array Token
  deriving Repr

namespace Lexer

/-- At the start of a text. -/
def start : Lexer := ⟨.gap, 0, #[]⟩

/-- The token of an atom read character by character. -/
def atomToken (start : Nat) (chars : List Char) : Token :=
  .symbol (String.ofList chars.reverse) start

/-- Read `c` in a gap. -/
def stepGap (position : Nat) (tokens : Array Token) (c : Char) : Lexer :=
  if isBlank c then ⟨.gap, position + 1, tokens⟩
  else if c = ';' then ⟨.lineComment, position + 1, tokens⟩
  else if c = '(' then ⟨.gap, position + 1, tokens.push (.opening position)⟩
  else if c = ')' then ⟨.gap, position + 1, tokens.push (.closing position)⟩
  else ⟨.atom position [c], position + 1, tokens⟩

/-- The mode after `c` in a block comment: a pair `#|` is one opener more, a pair `|#`
one fewer, and no character belongs to two pairs. -/
def stepBlock (start depth : Nat) (before : Option Char) (c : Char) : Mode :=
  if before = some '#' ∧ c = '|' then .blockComment start (depth + 1) none
  else if before = some '|' ∧ c = '#' then
    if depth ≤ 1 then .gap else .blockComment start (depth - 1) none
  else .blockComment start depth (some c)

/-- Read one character. -/
def step (lexer : Lexer) (c : Char) : Lexer :=
  let ⟨mode, position, tokens⟩ := lexer
  match mode with
  | .gap => stepGap position tokens c
  | .lineComment => ⟨if c = '\n' then .gap else .lineComment, position + 1, tokens⟩
  | .blockComment start depth before => ⟨stepBlock start depth before c, position + 1, tokens⟩
  | .atom start chars =>
    if chars = ['#'] ∧ c = '|' then ⟨.blockComment start 1 none, position + 1, tokens⟩
    else if isDelimiter c then stepGap position (tokens.push (atomToken start chars)) c
    else ⟨.atom start (c :: chars), position + 1, tokens⟩

/-- Read a text. -/
def run (lexer : Lexer) (cs : List Char) : Lexer := cs.foldl step lexer

@[simp] theorem run_nil (lexer : Lexer) : lexer.run [] = lexer := rfl

@[simp] theorem run_cons (lexer : Lexer) (c : Char) (cs : List Char) :
    lexer.run (c :: cs) = (lexer.step c).run cs := rfl

/-- Running over two texts in a row is running over the second where the first ended. -/
theorem run_append (lexer : Lexer) (a b : List Char) :
    lexer.run (a ++ b) = (lexer.run a).run b := List.foldl_append ..

/-- Every character counts as one. -/
theorem position_step (lexer : Lexer) (c : Char) : (lexer.step c).position = lexer.position + 1 := by
  simp only [step, stepGap]
  repeat' split
  all_goals rfl

/-- Every character moves the position by one. -/
theorem position_run (lexer : Lexer) (cs : List Char) :
    (lexer.run cs).position = lexer.position + cs.length := by
  induction cs generalizing lexer with
  | nil => rfl
  | cons c cs ih => rw [run_cons, ih, position_step, List.length_cons]; omega

end Lexer

/-- Tokens still to come, and how their source ends: with `failure`, raised once when
the tokens are used up, or with the end of the text. -/
structure TokenStream where
  pending : List Token
  failure : Option ParseError
  deriving Repr, DecidableEq

namespace Lexer

/-- The tokens of a lexer whose text ends here.  An atom ends with the text, and so does
a line comment; a block comment must not. -/
def finish (lexer : Lexer) : TokenStream :=
  match lexer.mode with
  | .gap | .lineComment => ⟨lexer.tokens.toList, none⟩
  | .blockComment start _ _ => ⟨lexer.tokens.toList, some (.unterminatedComment start)⟩
  | .atom start chars => ⟨lexer.tokens.toList ++ [atomToken start chars], none⟩

end Lexer

/-- The tokens of a source text, and the failure that ends them, if one does. -/
def lex (source : String) : TokenStream := (Lexer.start.run source.toList).finish

end ScopedLisp
