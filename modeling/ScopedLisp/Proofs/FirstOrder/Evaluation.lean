import ScopedLisp.Proofs.Evaluation.Literals
import ScopedLisp.Proofs.FirstOrder.Code
import ScopedLisp.Proofs.FirstOrder.Scope

/-!
# ScopedLisp.Proofs.FirstOrder.Evaluation

Evaluation of first-order programs.  In a frame that shows values for its variables, and with enough levels, the
code of a term comes to what the term means (`Term.ends`): to its value, or to the failure of the division that meets
a zero first.  The proof goes through the term; each kind of code has one equation that says what its evaluation is
made of.
-/

namespace ScopedLisp

open Evaluation

/-! ## What evaluation is made of -/

namespace Call

variable {levels : Nat} {f : FrameId}

theorem perform_code (keyword : Keyword) (operands : List Value) (f : FrameId) :
    perform (levels + 2) (.eval (Form.code keyword operands) f) =
      Form.run levels (perform levels) keyword operands f := by
  rw [perform, step_code, perform, step]

theorem perform_ifCode (test positive negative : Value) :
    perform (levels + 2) (.eval (Form.code .ifForm [test, positive, negative]) f) = (do
      if (← perform levels (.eval test f)).isTrue then perform levels (.eval positive f)
      else perform levels (.eval negative f)) := by
  rw [perform_code]
  rfl

/-- Several expressions as one. -/
theorem perform_sequence {e e' : Value} {es : List Value} :
    perform (levels + 2) (.eval (Form.sequence (e :: e' :: es)) f) =
      evalLast (fun e => perform levels (.eval e f)) (e :: e' :: es) := by
  rw [Form.sequence, perform_code]
  · rfl
  · intro e eq
    cases eq

section Let

variable {bindings : List (String × Value)} {body : List Value}
  (are_names : ∀ binding ∈ bindings, Literal.ofText binding.1 = .name) (nonempty : body ≠ [])
include are_names nonempty

theorem perform_letCode (distinct : (bindings.map (·.1)).Nodup) :
    perform (levels + 2) (.eval (Form.letCode .letForm bindings body) f) = (do
      let values ← evalEach (fun e => perform levels (.nested (.eval e f))) (bindings.map (·.2))
      let frame ← newFrame f ((bindings.map (·.1)).zip values)
      perform levels (.eval (Form.sequence body) frame)) := by
  rw [Form.letCode, perform_code, Form.run, Form.runLet, Shape.letParts_code are_names (Or.inr distinct) nonempty]
  rfl

theorem perform_letStarCode : perform (levels + 2) (.eval (Form.letCode .letStarForm bindings body) f) = (do
    let frame ← newFrame f []
    Form.bindInOrder (perform levels) frame bindings
    perform levels (.eval (Form.sequence body) frame)) := by
  rw [Form.letCode, perform_code, Form.run, Form.runLetStar, Shape.letParts_code are_names (Or.inl rfl) nonempty]
  rfl

end Let

theorem perform_apply_primitive {heap : Heap} {id : ProcedureId} {p : Primitive}
    (there : heap.procedures[id]? = some (.primitive p.name p)) (args : List Value) :
    perform (levels + 1) (.apply (.procedure id) args f) heap = query (p.apply · args) heap := by
  rw [perform]
  refine (bind_of_ok rfl _).trans ?_
  simp only [Heap.procedure?, there]

end Call

namespace FirstOrder

variable {Γ Δ : Context} {σ τ : Ty} {n : Nat}

theorem notKeyword_primitive (p : Primitive) : Keyword.ofHead? (.atom p.name) = none := by
  cases p <;> rfl

theorem isName_primitive (p : Primitive) : Literal.ofText p.name = .name := by
  cases p <;> rfl

/-! ## How evaluation ends -/

/-- How a computation ends that means something: with a result that is right, or by the division that meets a zero.
The frames up to some and the procedures are kept. -/
inductive Ends {α β : Type} (bound : Nat) (heap : Heap) (right : α → β → Heap → Prop) :
    Except Primitive α → EStateM.Result Failure Heap β → Prop where
  | value {a : α} {b : β} {after : Heap} : Keeps bound heap after → right a b after →
      Ends bound heap right (.ok a) (.ok b after)
  | zero {p : Primitive} {after : Heap} : Keeps bound heap after →
      Ends bound heap right (.error p) (.error (.error (zeroDivision p)) after)

section Ends

variable {α β γ δ : Type} {bound less : Nat} {heap mid : Heap} {right : α → β → Heap → Prop}
  {right' : γ → δ → Heap → Prop} {meaning : Except Primitive α} {result : EStateM.Result Failure Heap β}

theorem Ends.after (keeps : Keeps bound heap mid) (ends : Ends bound mid right meaning result) :
    Ends bound heap right meaning result := by
  cases ends with
  | value keeps' is_right => exact .value (keeps.trans keeps') is_right
  | zero keeps' => exact .zero (keeps.trans keeps')

/-- If two computations mean something, so does the one after the other. -/
theorem Ends.bind {x : Evaluation β} {next : β → Evaluation δ} {more : α → Except Primitive γ}
    (ends : Ends bound heap right meaning (x heap)) (le : less ≤ bound)
    (rest : ∀ a b mid, Keeps bound heap mid → right a b mid → Ends less mid right' (more a) (next b mid)) :
    Ends less heap right' (meaning >>= more) ((x >>= next) heap) := by
  generalize h : x heap = result at ends
  cases ends with
  | @value a b mid keeps is_right =>
      rw [bind_of_ok h]
      exact (rest a b mid keeps is_right).after (keeps.of_le le)
  | @zero p after keeps =>
      rw [bind_of_error h]
      exact .zero (keeps.of_le le)

/-- A new frame is none of those that are kept. -/
theorem Ends.newFrame {parent : FrameId} {slots : List (String × Value)} {next : FrameId → Evaluation β}
    (le : bound ≤ heap.frames.size) (ends : Ends bound (heap.newFrame (some parent) slots).2 right meaning
      (next heap.frames.size (heap.newFrame (some parent) slots).2)) :
    Ends bound heap right meaning ((Evaluation.newFrame parent slots >>= next) heap) :=
  ends.after (keeps_newFrame le (some parent) slots)

theorem Ends.of_le (ends : Ends bound heap right meaning result) (le : less ≤ bound) :
    Ends less heap right meaning result := by
  cases ends with
  | value keeps is_right => exact .value (keeps.of_le le) is_right
  | zero keeps => exact .zero (keeps.of_le le)

end Ends

/-- A value represents its meaning. -/
def Ty.Right (τ : Ty) (a : τ.Den) (v : Value) (_ : Heap) : Prop := v = τ.value a

/-! ## Parts of terms -/

variable {ρ : Env Γ} {heap : Heap} {f bound levels : Nat}

/-- A literal is taken for what it means. -/
theorem ends_literal {text : String} {a : τ.Den}
    (result : (Literal.ofText text).result? = some (.ok (τ.value a))) :
    Ends bound heap τ.Right (.ok a) (Call.perform (levels + 1) (.eval (.atom text) f) heap) := by
  rw [Call.perform_literal f result]
  exact .value (Keeps.refl _ _) rfl

/-- What can be looked up is found. -/
theorem perform_lookup {name : String} {v : Value} (is_name : Literal.ofText name = .name)
    (found : heap.lookup f name = .ok v) : Call.perform (levels + 1) (.eval (.atom name) f) heap = .ok v heap := by
  simp only [Call.perform_atom, is_name, Literal.result?, Option.getD_none, query, found]

/-- The answer of a primitive represents the meaning of the operation. -/
theorem ends_answer (meaning : Except Primitive τ.Den) :
    Ends bound heap τ.Right meaning (query (fun _ => Operator.answer meaning) heap) := by
  cases meaning with
  | ok a => exact .value (Keeps.refl _ _) rfl
  | error p => exact .zero (Keeps.refl _ _)

/-- The expressions of a body, evaluated as one. -/
theorem ends_sequence {body : Body Γ τ} (deep : body.levels + body.wrapping ≤ levels)
    (inside : ∀ levels ≥ body.levels, Ends bound heap τ.Right (body.denote ρ)
      (evalLast (fun e => Call.perform levels (.eval e f)) (body.codes.map Expr.toValue) heap)) :
    Ends bound heap τ.Right (body.denote ρ)
      (Call.perform levels (.eval (Form.sequence (body.codes.map Expr.toValue)) f) heap) := by
  cases body with
  | last value => exact inside levels deep
  | cons first rest =>
      obtain ⟨levels, rfl⟩ := Nat.exists_eq_add_of_le' (show 2 ≤ levels from Nat.le_trans (Nat.le_add_left _ _) deep)
      have ends := inside levels (Nat.le_of_add_le_add_right deep)
      obtain ⟨e, es, several⟩ := List.exists_cons_of_ne_nil rest.codes_ne_nil
      have split : (Body.cons first rest).codes.map Expr.toValue = first.code.toValue :: e :: es :=
        congrArg (first.code.toValue :: ·) several
      rw [split] at ends ⊢
      rwa [Call.perform_sequence]

/-! ## Terms -/

mutual
/-- **Terms come to what they mean.** -/
theorem Term.ends : {Γ : Context} → {τ : Ty} → (t : Term Γ τ) → {ρ : Env Γ} → {heap : Heap} → {f bound levels : Nat} →
    Shows heap f ρ → f < bound → bound ≤ heap.frames.size → t.levels ≤ levels →
    Ends bound heap τ.Right (t.denote ρ) (Call.perform levels (.eval t.code.toValue f) heap)
  | _, _, .numeral n, _, _, _, _, levels, _, _, _, deep => by
      obtain ⟨levels, rfl⟩ := Nat.exists_eq_add_of_le' (show 1 ≤ levels from deep)
      refine ends_literal ?_
      have means := Literal.ofText_of_means (.integer n.sign_mem n.digits_mem String.toList_ofList n.fits)
      rw [Numeral.text, means]
      rfl
  | _, _, .truth b, _, _, _, _, levels, _, _, _, deep => by
      obtain ⟨levels, rfl⟩ := Nat.exists_eq_add_of_le' (show 1 ≤ levels from deep)
      refine ends_literal ?_
      cases b <;> rfl
  | _, _, @Term.var _ x _ position, _, _, _, _, levels, shown, _, _, deep => by
      obtain ⟨levels, rfl⟩ := Nat.exists_eq_add_of_le' (show 1 ≤ levels from deep)
      rw [Term.code, Expr.toValue, perform_lookup x.is_name (shown.value position)]
      exact .value (Keeps.refl _ _) rfl
  | _, _, .conditional test positive negative, _, heap, f, bound, levels, shown, lt, le, deep => by
      rw [Term.levels] at deep
      obtain ⟨levels, rfl⟩ := Nat.exists_eq_add_of_le' (Nat.le_trans (Nat.le_add_left _ _) deep)
      rw [Term.code, toValue_formExpr]
      simp only [List.map_cons, List.map_nil]
      rw [Call.perform_ifCode]
      refine (test.ends shown lt le (by omega)).bind (Nat.le_refl _) fun b v mid keeps is_right => ?_
      cases is_right
      have shown := shown.keeps keeps lt
      have le := Nat.le_trans le keeps.size_le
      cases b with
      | true => exact positive.ends shown lt le (by omega)
      | false => exact negative.ends shown lt le (by omega)
  | _, _, .letTogether bindings distinct body, ρ, heap, f, bound, levels, shown, lt, le, deep => by
      rw [Term.levels] at deep
      obtain ⟨levels, rfl⟩ := Nat.exists_eq_add_of_le' (show 3 ≤ levels by omega)
      have distinct : ((bindingValues bindings.codes).map (·.1)).Nodup := by rwa [bindings.names_codes]
      rw [Term.code, toValue_letExpr, Call.perform_letCode bindings.are_names body.codes_ne_nil distinct]
      refine (bindings.ends shown lt le (by omega)).bind (Nat.le_refl _) fun δ values mid keeps is_right => ?_
      cases is_right
      have le := Nat.le_trans le keeps.size_le
      have shown := (shown.keeps keeps lt).newFrame δ
      rw [bindings.names_codes]
      refine .newFrame le ((ends_sequence (by omega) fun levels enough => ?_).of_le (Nat.le_succ_of_le le))
      exact body.ends shown (Nat.lt_succ_self _) shown.rooted.lt_size enough
  | _, _, .letInOrder bindings body, _, heap, f, bound, levels, shown, lt, le, deep => by
      rw [Term.levels] at deep
      obtain ⟨levels, rfl⟩ := Nat.exists_eq_add_of_le' (show 2 ≤ levels by omega)
      rw [Term.code, toValue_letExpr, Call.perform_letStarCode bindings.are_names body.codes_ne_nil]
      refine .newFrame le ?_
      refine (bindings.ends (shown.newFrame .nil) (by omega)).bind le fun ρ' _ mid keeps shown => ?_
      refine (ends_sequence (by omega) fun levels enough => ?_).of_le (Nat.le_succ_of_le le)
      exact body.ends shown (Nat.lt_succ_self _) shown.rooted.lt_size enough
  | _, _, .application op operands, _, heap, f, bound, levels, shown, lt, le, deep => by
      rw [Term.levels] at deep
      obtain ⟨levels, rfl⟩ := Nat.exists_eq_add_of_le' (Nat.le_trans (Nat.le_add_left _ _) deep)
      obtain ⟨id, found, there⟩ := shown.procedure op.primitive
      rw [Term.code, Expr.toValue, Expr.toValues, Expr.toValues_eq_map,
        Expr.toValue, Call.perform_application (notKeyword_primitive _)]
      rw [bind_of_ok (perform_lookup (isName_primitive _) found)]
      refine (operands.ends shown lt le (by omega)).bind (Nat.le_refl _) fun v args mid keeps is_right => ?_
      cases is_right
      rw [Call.perform_apply_primitive (by rw [keeps.procedures, there])]
      simp only [query, op.apply_primitive]
      exact ends_answer _

/-- Bindings come to the values for their variables. -/
theorem Bindings.ends : {Γ Δ : Context} → (bindings : Bindings Γ Δ) → {ρ : Env Γ} → {heap : Heap} →
    {f bound levels : Nat} → Shows heap f ρ → f < bound → bound ≤ heap.frames.size → bindings.levels ≤ levels →
    Ends bound heap (fun δ values _ => values = δ.values) (bindings.denote ρ)
      (evalEach (fun e => Call.perform (levels + 1) (.nested (.eval e f)))
        ((bindingValues bindings.codes).map (·.2)) heap)
  | _, _, .nil, _, _, _, _, _, _, _, _, _ => .value (Keeps.refl _ _) rfl
  | _, _, .cons x value rest, _, heap, f, bound, levels, shown, lt, le, deep => by
      obtain ⟨deep, deep'⟩ := Nat.max_le.mp deep
      refine (value.ends shown lt le deep).bind (Nat.le_refl _) fun a v mid keeps is_right => ?_
      cases is_right
      have le := Nat.le_trans le keeps.size_le
      refine (rest.ends (shown.keeps keeps lt) lt le deep').bind (Nat.le_refl _) fun δ vs mid keeps is_right => ?_
      cases is_right
      exact .value (Keeps.refl _ _) rfl

/-- Bindings in order leave a frame that shows the values for their variables. -/
theorem Telescope.ends : {Γ Δ : Context} → (bindings : Telescope Γ Δ) → {ρ : Env Γ} → {heap : Heap} →
    {f levels : Nat} → Shows heap f ρ → bindings.levels ≤ levels →
    Ends f heap (fun ρ' _ after => Shows after f ρ') (bindings.denote ρ)
      (Form.bindInOrder (Call.perform levels) f (bindingValues bindings.codes) heap)
  | _, _, .nil, _, _, _, _, shown, _ => .value (Keeps.refl _ _) shown
  | _, _, .cons x value rest, _, heap, f, levels, shown, deep => by
      obtain ⟨deep, deep'⟩ := Nat.max_le.mp deep
      have lt := Nat.lt_succ_self f
      refine (value.ends shown lt shown.rooted.lt_size deep).bind (Nat.le_of_lt lt) fun a v mid keeps is_right => ?_
      cases is_right
      have shown := (shown.keeps keeps lt).write x a
      exact (rest.ends shown deep').after (keeps_write (Nat.le_refl f) x.name _)

/-- The expressions of a body come to what the last one means. -/
theorem Body.ends : {Γ : Context} → {τ : Ty} → (body : Body Γ τ) → {ρ : Env Γ} → {heap : Heap} →
    {f bound levels : Nat} → Shows heap f ρ → f < bound → bound ≤ heap.frames.size → body.levels ≤ levels →
    Ends bound heap τ.Right (body.denote ρ)
      (evalLast (fun e => Call.perform levels (.eval e f)) (body.codes.map Expr.toValue) heap)
  | _, _, .last value, _, _, _, _, _, shown, lt, le, deep => value.ends shown lt le deep
  | _, _, .cons first rest, _, heap, f, bound, levels, shown, lt, le, deep => by
      obtain ⟨deep, deep'⟩ := Nat.max_le.mp deep
      obtain ⟨e, es, several⟩ := List.exists_cons_of_ne_nil rest.codes_ne_nil
      have next (mid : Heap) (keeps : Keeps bound heap mid) :=
        rest.ends (shown.keeps keeps lt) lt (Nat.le_trans le keeps.size_le) deep'
      simp only [Body.codes, List.map_cons, several] at next ⊢
      exact (first.ends shown lt le deep).bind (Nat.le_refl _) fun _ _ mid keeps _ => next mid keeps

/-- Operands come to their values. -/
theorem Operands.ends : {Γ : Context} → {σ : Ty} → {n : Nat} → (operands : Operands Γ σ n) → {ρ : Env Γ} →
    {heap : Heap} → {f bound levels : Nat} → Shows heap f ρ → f < bound → bound ≤ heap.frames.size →
    operands.levels ≤ levels →
    Ends bound heap (fun v values _ => values = List.ofFn fun i => σ.value (v i)) (operands.denote ρ)
      (evalEach (fun e => Call.perform (levels + 1) (.nested (.eval e f))) (operands.codes.map Expr.toValue) heap)
  | _, _, _, .nil, _, _, _, _, _, _, _, _, _ => .value (Keeps.refl _ _) rfl
  | _, _, _, .cons first rest, _, heap, f, bound, levels, shown, lt, le, deep => by
      obtain ⟨deep, deep'⟩ := Nat.max_le.mp deep
      refine (first.ends shown lt le deep).bind (Nat.le_refl _) fun a v mid keeps is_right => ?_
      cases is_right
      have le := Nat.le_trans le keeps.size_le
      refine (rest.ends (shown.keeps keeps lt) lt le deep').bind (Nat.le_refl _) fun w vs mid keeps is_right => ?_
      cases is_right
      refine .value (Keeps.refl _ _) ?_
      rw [List.ofFn_succ]
      rfl
end

end FirstOrder

end ScopedLisp
