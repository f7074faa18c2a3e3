import ScopedLisp.Value

/-!
# ScopedLisp.Form.Keyword

The ten special forms and the words that begin them.  A keyword keeps its meaning at
the head of a list whatever variables are bound.
-/

namespace ScopedLisp

/-- The special forms. -/
inductive Keyword where
  | ifForm
  | defineForm
  | lambdaForm
  | beginForm
  | letForm
  | letStarForm
  | letrecForm
  | andForm
  | orForm
  | condForm
  deriving DecidableEq, Repr, Inhabited

namespace Keyword

/-- Every special form. -/
def all : List Keyword := [
  .ifForm, .defineForm, .lambdaForm, .beginForm, .letForm, .letStarForm, .letrecForm, .andForm,
  .orForm, .condForm]

/-- The word that begins a form. -/
def name : Keyword → String
  | .ifForm => "if"
  | .defineForm => "define"
  | .lambdaForm => "lambda"
  | .beginForm => "begin"
  | .letForm => "let"
  | .letStarForm => "let*"
  | .letrecForm => "letrec"
  | .andForm => "and"
  | .orForm => "or"
  | .condForm => "cond"

/-- The form that a word begins. -/
def ofName? (name : String) : Option Keyword := all.find? (·.name == name)

/-- The form that the head of a list announces, if it is an atom of that name. -/
def ofHead? : Value → Option Keyword
  | .atom text => ofName? text
  | _ => none

/-- A form is found again by its word. -/
theorem ofName?_name (keyword : Keyword) : ofName? keyword.name = some keyword := by
  cases keyword <;> rfl

/-- The word found is the word asked for. -/
theorem name_of_ofName? {text : String} {keyword : Keyword} (h : ofName? text = some keyword) :
    keyword.name = text := by
  simpa using List.find?_some h

end Keyword

end ScopedLisp
