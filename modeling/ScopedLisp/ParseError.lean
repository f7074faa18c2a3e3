/-!
# ScopedLisp.ParseError

Why a text cannot be read.  Each cause knows where it lies and whether more text
could still complete the source: only an open list or an open comment can be
completed.
-/

namespace ScopedLisp

/-- The causes of failed reading; `position` is the place of a token, in characters from the
beginning of the text, where the token has one. -/
inductive ParseError where
  /-- A `#|` comment, starting here, that the text does not close. -/
  | unterminatedComment (position : Int)
  /-- A closing parenthesis that no open list waits for. -/
  | unexpectedClosing (position : Option Int)
  /-- The innermost list still open at the end of the text. -/
  | unmatchedOpening (position : Option Int)
  /-- No expression where one was asked for. -/
  | emptyInput
  /-- More text behind the one expression that was asked for. -/
  | trailingInput (position : Option Int)
  /-- A token of a kind that reading does not know. -/
  | unknownToken (kind text : String) (position : Option Int)
  /-- An atom without text, which no source text contains. -/
  | emptyAtom
  /-- A failure that the host reports in its own words. -/
  | reported (text : String) (position : Option Int) (incomplete : Bool)
  deriving DecidableEq, Repr, Inhabited

namespace ParseError

/-- The place of the error, where it has one. -/
def position : ParseError → Option Int
  | .unterminatedComment p => some p
  | .unexpectedClosing p | .unmatchedOpening p | .trailingInput p | .unknownToken _ _ p
  | .reported _ p _ => p
  | .emptyInput => some 0
  | .emptyAtom => none

/-- Could more text complete the source? -/
def incomplete : ParseError → Bool
  | .unterminatedComment _ | .unmatchedOpening _ => true
  | .reported _ _ incomplete => incomplete
  | _ => false

/-- What is wrong, without the place. -/
def reason : ParseError → String
  | .unterminatedComment _ => "Unterminated multi-line comment"
  | .unexpectedClosing _ => "Unexpected ')'"
  | .unmatchedOpening _ => "Unmatched '('"
  | .emptyInput => "Empty input"
  | .trailingInput _ => "Unexpected input after expression"
  | .unknownToken kind text _ => "Unknown token: " ++ kind ++ " " ++ text
  | .emptyAtom => "Atom text must be non-empty"
  | .reported text _ _ => text

/-- The reason, with the place behind it. -/
def message (error : ParseError) : String :=
  match error.position with
  | some p => error.reason ++ " (at offset " ++ toString p ++ ")"
  | none => error.reason

/-- The same error in a text with `n` more characters in front. -/
def shift (n : Int) : ParseError → ParseError
  | .unterminatedComment p => .unterminatedComment (p + n)
  | .unexpectedClosing p => .unexpectedClosing (p.map (· + n))
  | .unmatchedOpening p => .unmatchedOpening (p.map (· + n))
  | .trailingInput p => .trailingInput (p.map (· + n))
  | .unknownToken kind text p => .unknownToken kind text (p.map (· + n))
  | .reported text p incomplete => .reported text (p.map (· + n)) incomplete
  | error => error

@[simp] theorem reason_shift (n : Int) (error : ParseError) :
    (error.shift n).reason = error.reason := by
  cases error <;> rfl

@[simp] theorem incomplete_shift (n : Int) (error : ParseError) :
    (error.shift n).incomplete = error.incomplete := by
  cases error <;> rfl

end ParseError

end ScopedLisp
