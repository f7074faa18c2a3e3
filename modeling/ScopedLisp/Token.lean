/-!
# ScopedLisp.Token

The three kinds of token that source text is cut into.  A stream may also be fed
by a host, whose tokens can be of a kind of their own; reading refuses those.
-/

namespace ScopedLisp

/-- What a token is: an opening or closing parenthesis, the text of an atom, or a
kind only its maker knows. -/
inductive TokenKind where
  | opening
  | closing
  | symbol
  | other (name : String)
  deriving DecidableEq, Repr, Inhabited

/-- A token with its text and its place: the number of characters before it.  The token of a host
may lie anywhere, even before the beginning, or have no place at all. -/
structure Token where
  kind : TokenKind
  text : String
  position : Option Int
  deriving DecidableEq, Repr, Inhabited

namespace Token

/-- The opening parenthesis at `position`. -/
def opening (position : Int) : Token := ⟨.opening, "(", some position⟩

/-- The closing parenthesis at `position`. -/
def closing (position : Int) : Token := ⟨.closing, ")", some position⟩

/-- The atom `text` at `position`. -/
def symbol (text : String) (position : Int) : Token := ⟨.symbol, text, some position⟩

end Token

end ScopedLisp
