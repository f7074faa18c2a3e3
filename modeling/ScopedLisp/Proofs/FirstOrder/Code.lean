import ScopedLisp.Proofs.FirstOrder.Term
import ScopedLisp.Proofs.Literal.Written
import ScopedLisp.Proofs.Reading.RoundTrip

/-!
# ScopedLisp.Proofs.FirstOrder.Code

The code of first-order programs, as a value to evaluate and as a text.  A `let` is the one that its bindings and its
body make (`toValue_letExpr`), and binds names.  The atoms of a term's code can be written, so what is written for it
is read as the code again (`Term.readAll_toSource`).
-/

namespace ScopedLisp

namespace FirstOrder

variable {Γ Δ : Context} {τ : Ty}

/-! ## Code as a value -/

/-- The expression of a form, as a value, is the code of the form. -/
theorem toValue_formExpr (keyword : Keyword) (operands : List Expr) :
    (formExpr keyword operands).toValue = Form.code keyword (operands.map Expr.toValue) := by
  rw [formExpr, Expr.toValue, Expr.toValues_eq_map]
  rfl

/-- Names with their expressions as values. -/
def bindingValues (bindings : List (String × Expr)) : List (String × Value) :=
  bindings.map fun (x, e) => (x, e.toValue)

/-- The expression of some bindings, as a value, is their list. -/
theorem toValue_bindingsExpr (bindings : List (String × Expr)) :
    (bindingsExpr bindings).toValue = .list ((bindingValues bindings).map Form.bindingCode) := by
  rw [bindingsExpr, Expr.toValue, Expr.toValues_eq_map, bindingValues, List.map_map, List.map_map]
  rfl

/-- The expression of a binding form, as a value, is the code of the form. -/
theorem toValue_letExpr (keyword : Keyword) (bindings : List (String × Expr)) (body : List Expr) :
    (formExpr keyword (bindingsExpr bindings :: body)).toValue =
      Form.letCode keyword (bindingValues bindings) (body.map Expr.toValue) := by
  rw [toValue_formExpr, List.map_cons, toValue_bindingsExpr]
  rfl

/-- Bindings of a context bind its names, in order. -/
theorem Bindings.names_codes : {Δ : Context} → (bindings : Bindings Γ Δ) →
    (bindingValues bindings.codes).map (·.1) = Δ.names
  | _, .nil => rfl
  | _, .cons x _ rest => congrArg (x.name :: ·) rest.names_codes

/-- All names of a context are names as code: none of them is a literal. -/
theorem Bindings.are_names : {Δ : Context} → (bindings : Bindings Γ Δ) →
    ∀ binding ∈ bindingValues bindings.codes, Literal.ofText binding.1 = .name
  | _, .nil => nofun
  | _, .cons x _ rest => List.forall_mem_cons.mpr ⟨x.is_name, rest.are_names⟩

/-- All names that are bound in order are names as code. -/
theorem Telescope.are_names : {Γ : Context} → (bindings : Telescope Γ Δ) →
    ∀ binding ∈ bindingValues bindings.codes, Literal.ofText binding.1 = .name
  | _, .nil => nofun
  | _, .cons x _ rest => List.forall_mem_cons.mpr ⟨x.is_name, rest.are_names⟩

/-- A body has at least one expression. -/
theorem Body.codes_ne_nil (body : Body Γ τ) : body.codes.map Expr.toValue ≠ [] := by
  cases body <;> exact List.cons_ne_nil _ _

/-! ## Atoms -/

/-- A numeral is one token. -/
theorem Numeral.isWord (n : Numeral) : IsWord n.text := by
  obtain ⟨nonempty, isAtom⟩ :=
    Literal.Grammar.isAtom_of_mem_integer (Language.append_mem_mul n.sign_mem n.digits_mem)
  refine ⟨?_, ?_⟩
  · rwa [Numeral.text, Ne, ← String.toList_eq_nil_iff, String.toList_ofList]
  · rwa [Numeral.text, String.toList_ofList]

/-- The word of a form is one token. -/
theorem isWord_keyword (keyword : Keyword) : IsWord keyword.name := by
  cases keyword <;> exact ⟨by decide, by decide⟩

/-- The name of a primitive is one token. -/
theorem isWord_primitive (p : Primitive) : IsWord p.name := by
  cases p <;> exact ⟨by decide, by decide⟩

/-- Either truth value is one token. -/
theorem isWord_truth (b : Bool) : IsWord (if b then "#t" else "#f") := by
  cases b <;> exact ⟨by decide, by decide⟩

/-! ## Code as a text -/

/-- A form of writable operands can be written as source text. -/
theorem writable_formExpr (keyword : Keyword) {operands : List Expr} (written : ∀ e ∈ operands, e.Writable) :
    (formExpr keyword operands).Writable :=
  Expr.writable_list.mpr (List.forall_mem_cons.mpr ⟨Expr.writable_atom (isWord_keyword keyword), written⟩)

/-- Bindings of such names to writable expressions can be written as source text. -/
theorem writable_bindingsExpr {bindings : List (String × Expr)}
    (written : ∀ b ∈ bindings, IsWord b.1 ∧ b.2.Writable) : (bindingsExpr bindings).Writable := by
  refine Expr.writable_list.mpr (List.forall_mem_map.mpr fun (x, e) mem => ?_)
  obtain ⟨word, value⟩ := written (x, e) mem
  simpa [Expr.writable_list] using ⟨Expr.writable_atom word, value⟩

mutual
/-- The code of a term can be written. -/
theorem Term.writable_code {Γ : Context} {τ : Ty} : (t : Term Γ τ) → t.code.Writable
  | .numeral n => Expr.writable_atom n.isWord
  | .truth b => Expr.writable_atom (isWord_truth b)
  | @Term.var _ x _ _ => Expr.writable_atom x.is_word
  | .conditional test positive negative => by
      refine writable_formExpr .ifForm ?_
      simpa using ⟨test.writable_code, positive.writable_code, negative.writable_code⟩
  | .letTogether bindings _ body =>
      writable_formExpr .letForm
        (List.forall_mem_cons.mpr ⟨writable_bindingsExpr bindings.writable_codes, body.writable_codes⟩)
  | .letInOrder bindings body =>
      writable_formExpr .letStarForm
        (List.forall_mem_cons.mpr ⟨writable_bindingsExpr bindings.writable_codes, body.writable_codes⟩)
  | .application op operands =>
      Expr.writable_list.mpr
        (List.forall_mem_cons.mpr ⟨Expr.writable_atom (isWord_primitive op.primitive), operands.writable_codes⟩)

/-- The code of bindings is writable, name by name and term by term. -/
theorem Bindings.writable_codes {Γ Δ : Context} :
    (b : Bindings Γ Δ) → ∀ c ∈ b.codes, IsWord c.1 ∧ c.2.Writable
  | .nil => nofun
  | .cons x value rest => List.forall_mem_cons.mpr ⟨⟨x.is_word, value.writable_code⟩, rest.writable_codes⟩

/-- The code of bindings in order is writable. -/
theorem Telescope.writable_codes {Γ Δ : Context} :
    (b : Telescope Γ Δ) → ∀ c ∈ b.codes, IsWord c.1 ∧ c.2.Writable
  | .nil => nofun
  | .cons x value rest => List.forall_mem_cons.mpr ⟨⟨x.is_word, value.writable_code⟩, rest.writable_codes⟩

/-- The code of a body is writable. -/
theorem Body.writable_codes {Γ : Context} {τ : Ty} : (b : Body Γ τ) → ∀ e ∈ b.codes, e.Writable
  | .last value => List.forall_mem_singleton.mpr value.writable_code
  | .cons first rest => List.forall_mem_cons.mpr ⟨first.writable_code, rest.writable_codes⟩

/-- The code of a row of operands is writable. -/
theorem Operands.writable_codes {Γ : Context} {σ : Ty} {n : Nat} :
    (o : Operands Γ σ n) → ∀ e ∈ o.codes, e.Writable
  | .nil => nofun
  | .cons first rest => List.forall_mem_cons.mpr ⟨first.writable_code, rest.writable_codes⟩
end

/-- What is written for the code of a term is read as its code. -/
theorem Term.readAll_toSource {Γ : Context} {τ : Ty} (t : Term Γ τ) : readAll t.code.toSource = .ok [t.code] :=
  (read_eq_ok_iff _ _).mp (read_toSource t.writable_code)

end FirstOrder

end ScopedLisp
