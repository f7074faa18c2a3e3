import Mathlib.Data.List.Nodup
import ScopedLisp.Form.Shape

/-!
# ScopedLisp.Proofs.Form.Code

Forms put together from their parts, and the checks of shapes that find the parts again.

```
Form.letCode keyword [(n, e), ...] body      (keyword ((n e) ...) body ...)
Form.defineCode n e                          (define n e)
Form.lambdaCode [n, ...] body                (lambda (n ...) body ...)
```
-/

namespace ScopedLisp

namespace Form

/-- A form: its word in front of its operands. -/
def code (keyword : Keyword) (operands : List Value) : Value :=
  .list (.atom keyword.name :: operands)

/-- A name with the expression that it is bound to. -/
def bindingCode (binding : String × Value) : Value := .list [.atom binding.1, binding.2]

/-- A form that binds names around a body. -/
def letCode (keyword : Keyword) (bindings : List (String × Value)) (body : List Value) : Value :=
  code keyword (.list (bindings.map bindingCode) :: body)

/-- The definition of a name. -/
def defineCode (binding : String × Value) : Value := code .defineForm [.atom binding.1, binding.2]

/-- A procedure. -/
def lambdaCode (names : List String) (body : List Value) : Value :=
  code .lambdaForm (.list (names.map .atom) :: body)

/-- Some forms as one: the only one, or a `begin` around them. -/
def sequence : List Value → Value
  | [e] => e
  | es => code .beginForm es

end Form

namespace Shape

open Form

variable {name : String} {names : List String} {bindings : List (String × Value)} {body : List Value}

/-- An atom that is no literal is taken for a name. -/
theorem nameOf_atom (h : Literal.ofText name = .name) (what : String) :
    nameOf what (.atom name) = .ok name := by
  simp only [nameOf, h]

/-- A row of such atoms is taken for their names. -/
theorem namesOf_atoms (h : ∀ name ∈ names, Literal.ofText name = .name) (what : String) :
    namesOf what (names.map .atom) = .ok names := by
  induction names with
  | nil => rfl
  | cons name names ih =>
      obtain ⟨first, rest⟩ := List.forall_mem_cons.mp h
      rw [List.map_cons, namesOf, nameOf_atom first, ih rest]
      rfl

/-- Distinct names are taken for parameters. -/
theorem formals_atoms (h : ∀ name ∈ names, Literal.ofText name = .name) (distinct : names.Nodup)
    (form : String) : formals form (.list (names.map .atom)) = .ok names := by
  rw [formals, namesOf_atoms h]
  exact if_pos distinct

/-- The code of bindings is taken for these bindings. -/
theorem bindingsOf_code (h : ∀ binding ∈ bindings, Literal.ofText binding.1 = .name) (form : String) :
    bindingsOf form (bindings.map bindingCode) = .ok bindings := by
  induction bindings with
  | nil => rfl
  | cons binding bindings ih =>
      obtain ⟨first, rest⟩ := List.forall_mem_cons.mp h
      have found : bindingOf form (bindingCode binding) = .ok binding := by
        simp only [bindingOf, bindingCode, nameOf_atom first]
        rfl
      rw [List.map_cons, bindingsOf, found, ih rest]
      rfl

/-- One form or several are taken for a body. -/
theorem body_of_ne_nil (nonempty : body ≠ []) (form : String) :
    Shape.body form body = .ok (sequence body) := by
  rcases body with _ | ⟨e, _ | ⟨e', es⟩⟩
  · exact absurd rfl nonempty
  · rfl
  · rfl

/-- Bindings of names, which are distinct where they have to be, are found again. -/
theorem letParts_code {form : String} {duplicates : Bool}
    (h : ∀ binding ∈ bindings, Literal.ofText binding.1 = .name)
    (distinct : duplicates = true ∨ (bindings.map (·.1)).Nodup) (nonempty : body ≠ []) :
    letParts form duplicates (.list (bindings.map bindingCode) :: body) =
      .ok (bindings, sequence body) := by
  have allowed : (duplicates || decide (bindings.map (·.1)).Nodup) = true := by
    simpa only [Bool.or_eq_true, decide_eq_true_iff] using distinct
  have found : Shape.bindings form duplicates (.list (bindings.map bindingCode)) = .ok bindings := by
    rw [Shape.bindings, bindingsOf_code h]
    exact if_pos allowed
  simp only [letParts, body_of_ne_nil nonempty, found]
  rfl

/-- Distinct names and a body make a `lambda`. -/
theorem lambda_code (h : ∀ name ∈ names, Literal.ofText name = .name) (distinct : names.Nodup)
    (nonempty : body ≠ []) :
    lambda (.list (names.map .atom) :: body) = .ok (names, sequence body) := by
  simp only [lambda, formals_atoms h distinct, body_of_ne_nil nonempty]
  rfl

/-- A name and an expression make a definition. -/
theorem definition_code (h : Literal.ofText name = .name) (e : Value) :
    definition [.atom name, e] = .ok (.value name e) := by
  simp only [definition, nameOf_atom h]
  rfl

/-- What is written as a `lambda` is a `lambda` form, of whatever shape. -/
theorem isLambda_iff {e : Value} : isLambda e = true ↔ ∃ parts, e = code .lambdaForm parts := by
  constructor
  · intro h
    unfold isLambda at h
    split at h
    next text parts =>
      rw [beq_iff_eq] at h
      exact ⟨parts, by rw [h]; rfl⟩
    · cases h
  · rintro ⟨parts, rfl⟩
    rfl

end Shape

end ScopedLisp
