import ScopedLisp.Evaluation
import ScopedLisp.Proofs.Form.Code
import ScopedLisp.Proofs.Form.Parts

/-!
# ScopedLisp.Proofs.Form.Grammar

The grammar of forms, said without the checks: `Form.Proper` lists what may stand behind each word, and
`Form.parts` the expressions in it that the form evaluates.

The checks find the parts of a form exactly if it is put together from them (`Shape.lambda_eq_ok_iff` and
the statements before it).  So a form without a fault (`Form.fault?`) is a proper one, and the other way round.
-/

namespace ScopedLisp

namespace Shape

open Form

variable {α β : Type} {what form name : String} {names : List String} {e body : Value} {es forms : List Value}
  {bindings : List (String × Value)}

/-- Two checks in a row are passed exactly if the first is, and the second with what it answers. -/
theorem bind_eq_ok_iff {x : Checked α} {next : α → Checked β} {b : β} :
    (x >>= next) = .ok b ↔ ∃ a, x = .ok a ∧ next a = .ok b := by
  cases x with
  | ok a => exact ⟨fun h => ⟨a, rfl, h⟩, fun ⟨_, eq, h⟩ => by cases eq; exact h⟩
  | error error => exact ⟨nofun, fun ⟨_, eq, _⟩ => by cases eq⟩

/-! ## Parts that forms share -/

/-- A name is an atom that is no literal, and nothing else is. -/
theorem nameOf_eq_ok_iff : nameOf what e = .ok name ↔ e = .atom name ∧ Literal.ofText name = .name := by
  constructor
  · intro h
    unfold nameOf at h
    split at h
    · split at h <;> cases h
      next is_name => exact ⟨rfl, is_name⟩
    · cases h
  · rintro ⟨rfl, is_name⟩
    exact nameOf_atom is_name what

/-- Names are a row of atoms none of which is a literal. -/
theorem namesOf_eq_ok_iff :
    namesOf what es = .ok names ↔ es = names.map .atom ∧ ∀ name ∈ names, Literal.ofText name = .name := by
  constructor
  · intro h
    induction es generalizing names with
    | nil =>
        cases h
        exact ⟨rfl, nofun⟩
    | cons e es ih =>
        obtain ⟨name, first, h⟩ := bind_eq_ok_iff.mp h
        obtain ⟨rest, others, h⟩ := bind_eq_ok_iff.mp h
        cases h
        obtain ⟨rfl, is_name⟩ := nameOf_eq_ok_iff.mp first
        obtain ⟨rfl, are_names⟩ := ih others
        exact ⟨rfl, List.forall_mem_cons.mpr ⟨is_name, are_names⟩⟩
  · rintro ⟨rfl, are_names⟩
    exact namesOf_atoms are_names what

/-- Parameters are a list of distinct names. -/
theorem formals_eq_ok_iff : formals form e = .ok names ↔
    e = .list (names.map .atom) ∧ (∀ name ∈ names, Literal.ofText name = .name) ∧ names.Nodup := by
  constructor
  · intro h
    unfold formals at h
    split at h
    · obtain ⟨found, parameters, h⟩ := bind_eq_ok_iff.mp h
      split at h
      next distinct =>
        cases h
        obtain ⟨rfl, are_names⟩ := namesOf_eq_ok_iff.mp parameters
        exact ⟨rfl, are_names, distinct⟩
      · cases h
    · cases h
  · rintro ⟨rfl, are_names, distinct⟩
    exact formals_atoms are_names distinct form

/-- A binding is a list of a name and an expression. -/
theorem bindingOf_eq_ok_iff {binding : String × Value} :
    bindingOf form e = .ok binding ↔ e = bindingCode binding ∧ Literal.ofText binding.1 = .name := by
  constructor
  · intro h
    unfold bindingOf at h
    split at h
    · obtain ⟨name, first, h⟩ := bind_eq_ok_iff.mp h
      cases h
      obtain ⟨rfl, is_name⟩ := nameOf_eq_ok_iff.mp first
      exact ⟨rfl, is_name⟩
    · cases h
  · rintro ⟨rfl, is_name⟩
    exact bind_eq_ok_iff.mpr ⟨_, nameOf_atom is_name _, rfl⟩

/-- Bindings are a row of such lists. -/
theorem bindingsOf_eq_ok_iff : bindingsOf form es = .ok bindings ↔
    es = bindings.map bindingCode ∧ ∀ binding ∈ bindings, Literal.ofText binding.1 = .name := by
  constructor
  · intro h
    induction es generalizing bindings with
    | nil =>
        cases h
        exact ⟨rfl, nofun⟩
    | cons e es ih =>
        obtain ⟨binding, first, h⟩ := bind_eq_ok_iff.mp h
        obtain ⟨rest, others, h⟩ := bind_eq_ok_iff.mp h
        cases h
        obtain ⟨rfl, is_name⟩ := bindingOf_eq_ok_iff.mp first
        obtain ⟨rfl, are_names⟩ := ih others
        exact ⟨rfl, List.forall_mem_cons.mpr ⟨is_name, are_names⟩⟩
  · rintro ⟨rfl, are_names⟩
    exact bindingsOf_code are_names form

/-- A body is one form or several. -/
theorem body_eq_ok_iff : Shape.body form forms = .ok e ↔ forms ≠ [] ∧ e = sequence forms := by
  constructor
  · intro h
    have nonempty : forms ≠ [] := by
      rintro rfl
      cases h
    rw [body_of_ne_nil nonempty] at h
    exact ⟨nonempty, (Except.ok.inj h).symm⟩
  · rintro ⟨nonempty, rfl⟩
    exact body_of_ne_nil nonempty form

/-! ## The forms -/

/-- A `lambda` has a list of distinct names and a body. -/
theorem lambda_eq_ok_iff : lambda es = .ok (names, body) ↔
    ∃ forms, es = .list (names.map .atom) :: forms ∧ (∀ name ∈ names, Literal.ofText name = .name) ∧
      names.Nodup ∧ forms ≠ [] ∧ body = sequence forms := by
  constructor
  · intro h
    cases es with
    | nil => cases h
    | cons parameters forms =>
        obtain ⟨found, first, h⟩ := bind_eq_ok_iff.mp h
        obtain ⟨expr, rest, h⟩ := bind_eq_ok_iff.mp h
        cases h
        obtain ⟨rfl, are_names, distinct⟩ := formals_eq_ok_iff.mp first
        obtain ⟨nonempty, rfl⟩ := body_eq_ok_iff.mp rest
        exact ⟨forms, rfl, are_names, distinct, nonempty, rfl⟩
  · rintro ⟨forms, rfl, are_names, distinct, nonempty, rfl⟩
    exact lambda_code are_names distinct nonempty

/-- The definition of a value has a name and an expression. -/
theorem definition_eq_value_iff :
    definition es = .ok (.value name e) ↔ es = [.atom name, e] ∧ Literal.ofText name = .name := by
  constructor
  · intro h
    unfold definition at h
    split at h
    · cases h
    · cases h
    · obtain ⟨_, _, h⟩ := bind_eq_ok_iff.mp h
      obtain ⟨_, _, h⟩ := bind_eq_ok_iff.mp h
      obtain ⟨_, _, h⟩ := bind_eq_ok_iff.mp h
      cases h
    · obtain ⟨_, first, h⟩ := bind_eq_ok_iff.mp h
      cases h
      obtain ⟨rfl, is_name⟩ := nameOf_eq_ok_iff.mp first
      exact ⟨rfl, is_name⟩
    · cases h
  · rintro ⟨rfl, is_name⟩
    exact definition_code is_name e

/-- A header of names and a body make the definition of a procedure. -/
theorem definition_header (is_name : Literal.ofText name = .name)
    (are_names : ∀ name ∈ names, Literal.ofText name = .name) (distinct : names.Nodup) (nonempty : forms ≠ []) :
    definition (.list (.atom name :: names.map .atom) :: forms) =
      .ok (.procedure name names (sequence forms)) := by
  simp only [definition, nameOf_atom is_name, formals_atoms are_names distinct, body_of_ne_nil nonempty]
  rfl

/-- The definition of a procedure has a header of names, the parameters distinct, and a body. -/
theorem definition_eq_procedure_iff : definition es = .ok (.procedure name names body) ↔
    ∃ forms, es = .list (.atom name :: names.map .atom) :: forms ∧ Literal.ofText name = .name ∧
      (∀ name ∈ names, Literal.ofText name = .name) ∧ names.Nodup ∧ forms ≠ [] ∧ body = sequence forms := by
  constructor
  · intro h
    unfold definition at h
    split at h
    · cases h
    · cases h
    · obtain ⟨_, first, h⟩ := bind_eq_ok_iff.mp h
      obtain ⟨_, parameters, h⟩ := bind_eq_ok_iff.mp h
      obtain ⟨_, rest, h⟩ := bind_eq_ok_iff.mp h
      cases h
      obtain ⟨rfl, is_name⟩ := nameOf_eq_ok_iff.mp first
      obtain ⟨eq, are_names, distinct⟩ := formals_eq_ok_iff.mp parameters
      obtain ⟨nonempty, rfl⟩ := body_eq_ok_iff.mp rest
      cases eq
      exact ⟨_, rfl, is_name, are_names, distinct, nonempty, rfl⟩
    · obtain ⟨_, _, h⟩ := bind_eq_ok_iff.mp h
      cases h
    · cases h
  · rintro ⟨forms, rfl, is_name, are_names, distinct, nonempty, rfl⟩
    exact definition_header is_name are_names distinct nonempty

/-- A binding form has a list of bindings, of distinct names where that is asked for, and a body. -/
theorem letParts_eq_ok_iff {duplicates : Bool} : letParts form duplicates es = .ok (bindings, body) ↔
    ∃ forms, es = .list (bindings.map bindingCode) :: forms ∧
      (∀ binding ∈ bindings, Literal.ofText binding.1 = .name) ∧
      (duplicates = true ∨ (bindings.map (·.1)).Nodup) ∧ forms ≠ [] ∧ body = sequence forms := by
  constructor
  · intro h
    cases es with
    | nil => cases h
    | cons spec forms =>
        obtain ⟨expr, rest, h⟩ := bind_eq_ok_iff.mp h
        obtain ⟨found, first, h⟩ := bind_eq_ok_iff.mp h
        cases h
        obtain ⟨nonempty, rfl⟩ := body_eq_ok_iff.mp rest
        unfold Shape.bindings at first
        split at first
        · obtain ⟨found, items, first⟩ := bind_eq_ok_iff.mp first
          split at first
          next allowed =>
            cases first
            obtain ⟨rfl, are_names⟩ := bindingsOf_eq_ok_iff.mp items
            rw [Bool.or_eq_true, decide_eq_true_iff] at allowed
            exact ⟨forms, rfl, are_names, allowed, nonempty, rfl⟩
          · cases first
        · cases first
  · rintro ⟨forms, rfl, are_names, allowed, nonempty, rfl⟩
    exact letParts_code are_names allowed nonempty

end Shape

namespace Form

/-! ## The grammar -/

/-- What may stand behind the word of a form.  A `cond` has no shape as a whole: its clauses are looked at one
by one. -/
inductive Proper : Keyword → List Value → Prop where
  | ifThen (test positive : Value) : Proper .ifForm [test, positive]
  | ifThenElse (test positive negative : Value) : Proper .ifForm [test, positive, negative]
  | define {name : String} (e : Value) : Literal.ofText name = .name → Proper .defineForm [.atom name, e]
  | defineProcedure {name : String} {names : List String} {body : List Value} : Literal.ofText name = .name →
      (∀ name ∈ names, Literal.ofText name = .name) → names.Nodup → body ≠ [] →
      Proper .defineForm (.list (.atom name :: names.map .atom) :: body)
  | lambda {names : List String} {body : List Value} : (∀ name ∈ names, Literal.ofText name = .name) →
      names.Nodup → body ≠ [] → Proper .lambdaForm (.list (names.map .atom) :: body)
  | sequence {es : List Value} : es ≠ [] → Proper .beginForm es
  | letTogether {bindings : List (String × Value)} {body : List Value} :
      (∀ binding ∈ bindings, Literal.ofText binding.1 = .name) → (bindings.map (·.1)).Nodup → body ≠ [] →
      Proper .letForm (.list (bindings.map bindingCode) :: body)
  | letInOrder {bindings : List (String × Value)} {body : List Value} :
      (∀ binding ∈ bindings, Literal.ofText binding.1 = .name) → body ≠ [] →
      Proper .letStarForm (.list (bindings.map bindingCode) :: body)
  | letRecursive {bindings : List (String × Value)} {body : List Value} :
      (∀ binding ∈ bindings, Literal.ofText binding.1 = .name) → (bindings.map (·.1)).Nodup → body ≠ [] →
      Proper .letrecForm (.list (bindings.map bindingCode) :: body)
  | all (es : List Value) : Proper .andForm es
  | any (es : List Value) : Proper .orForm es

/-- The expression in a binding. -/
def boundExpr? : Value → Option Value
  | .list [_, e] => some e
  | _ => none

/-- The expressions in a form that it evaluates, each where it stands. -/
def parts : Keyword → List Value → List Value
  | .defineForm, [.atom _, e] => [e]
  | .defineForm, _ | .lambdaForm, _ => []
  | .letForm, .list bindings :: body | .letStarForm, .list bindings :: body
  | .letrecForm, .list bindings :: body => bindings.filterMap boundExpr? ++ body
  | _, es => es

/-- The expressions of well-formed bindings are those that are bound. -/
@[simp] theorem filterMap_boundExpr? (bindings : List (String × Value)) :
    (bindings.map bindingCode).filterMap boundExpr? = bindings.map (·.2) := by
  induction bindings with
  | nil => rfl
  | cons binding bindings ih =>
      rw [List.map_cons, List.filterMap_cons, ih]
      rfl

/-- The first fault that the check of a form finds, before anything is evaluated. -/
def fault? (keyword : Keyword) (operands : List Value) : Option (ShapeError Value) :=
  match keyword with
  | .ifForm => errorOf? (Shape.conditional operands)
  | .defineForm => errorOf? (Shape.definition operands)
  | .lambdaForm => errorOf? (Shape.lambda operands)
  | .beginForm => if operands.isEmpty then some .emptyBegin else none
  | .letForm => errorOf? (Shape.letParts "let" false operands)
  | .letStarForm => errorOf? (Shape.letParts "let*" true operands)
  | .letrecForm => errorOf? (Shape.letParts "letrec" false operands)
  | .andForm | .orForm | .condForm => none
where
  errorOf? {α : Type} : Shape.Checked α → Option (ShapeError Value)
    | .ok _ => none
    | .error error => some error

/-- A check has no error exactly if it is passed. -/
theorem errorOf?_eq_none_iff {α : Type} {checked : Shape.Checked α} :
    fault?.errorOf? checked = none ↔ ∃ parts, checked = .ok parts := by
  cases checked with
  | ok parts => exact ⟨fun _ => ⟨parts, rfl⟩, fun _ => rfl⟩
  | error error => exact ⟨nofun, fun ⟨_, h⟩ => by cases h⟩

/-- **The checks accept the grammar**, and nothing else. -/
theorem fault?_eq_none_iff {keyword : Keyword} (checked : keyword ≠ .condForm) {operands : List Value} :
    fault? keyword operands = none ↔ Proper keyword operands := by
  constructor
  · intro h
    cases keyword with
    | ifForm =>
        obtain ⟨parts, h⟩ := errorOf?_eq_none_iff.mp h
        unfold Shape.conditional at h
        split at h
        · exact .ifThen _ _
        · exact .ifThenElse _ _ _
        · cases h
    | defineForm =>
        obtain ⟨definition, h⟩ := errorOf?_eq_none_iff.mp h
        cases definition with
        | value name e =>
            obtain ⟨rfl, is_name⟩ := Shape.definition_eq_value_iff.mp h
            exact .define e is_name
        | procedure name names body =>
            obtain ⟨forms, rfl, is_name, are_names, distinct, nonempty, -⟩ :=
              Shape.definition_eq_procedure_iff.mp h
            exact .defineProcedure is_name are_names distinct nonempty
    | lambdaForm =>
        obtain ⟨⟨names, body⟩, h⟩ := errorOf?_eq_none_iff.mp h
        obtain ⟨forms, rfl, are_names, distinct, nonempty, -⟩ := Shape.lambda_eq_ok_iff.mp h
        exact .lambda are_names distinct nonempty
    | beginForm =>
        cases operands with
        | nil => cases h
        | cons e es => exact .sequence (List.cons_ne_nil e es)
    | letForm =>
        obtain ⟨⟨bindings, body⟩, h⟩ := errorOf?_eq_none_iff.mp h
        obtain ⟨forms, rfl, are_names, allowed, nonempty, -⟩ := Shape.letParts_eq_ok_iff.mp h
        exact .letTogether are_names (allowed.resolve_left nofun) nonempty
    | letStarForm =>
        obtain ⟨⟨bindings, body⟩, h⟩ := errorOf?_eq_none_iff.mp h
        obtain ⟨forms, rfl, are_names, -, nonempty, -⟩ := Shape.letParts_eq_ok_iff.mp h
        exact .letInOrder are_names nonempty
    | letrecForm =>
        obtain ⟨⟨bindings, body⟩, h⟩ := errorOf?_eq_none_iff.mp h
        obtain ⟨forms, rfl, are_names, allowed, nonempty, -⟩ := Shape.letParts_eq_ok_iff.mp h
        exact .letRecursive are_names (allowed.resolve_left nofun) nonempty
    | andForm => exact .all operands
    | orForm => exact .any operands
    | condForm => exact absurd rfl checked
  · intro proper
    cases proper with
    | ifThen | ifThenElse | all | any => rfl
    | define e is_name => exact errorOf?_eq_none_iff.mpr ⟨_, Shape.definition_code is_name e⟩
    | defineProcedure is_name are_names distinct nonempty =>
        exact errorOf?_eq_none_iff.mpr ⟨_, Shape.definition_header is_name are_names distinct nonempty⟩
    | lambda are_names distinct nonempty =>
        exact errorOf?_eq_none_iff.mpr ⟨_, Shape.lambda_code are_names distinct nonempty⟩
    | sequence nonempty => exact if_neg (by simpa using nonempty)
    | letTogether are_names distinct nonempty =>
        exact errorOf?_eq_none_iff.mpr ⟨_, Shape.letParts_code are_names (Or.inr distinct) nonempty⟩
    | letInOrder are_names nonempty =>
        exact errorOf?_eq_none_iff.mpr ⟨_, Shape.letParts_code are_names (Or.inl rfl) nonempty⟩
    | letRecursive are_names distinct nonempty =>
        exact errorOf?_eq_none_iff.mpr ⟨_, Shape.letParts_code are_names (Or.inr distinct) nonempty⟩

/-- A fault concerns code among the operands. -/
theorem errorWithin_fault {codes : CodeSet} {keyword : Keyword} {operands : List Value}
    (mem : ∀ e ∈ operands, codes.mem e) {error : ShapeError Value} (h : fault? keyword operands = some error) :
    Shape.ErrorWithin codes error := by
  have within : ∀ {α : Type} {wanted : α → Prop} {checked : Shape.Checked α}, Shape.Within codes wanted checked →
      fault?.errorOf? checked = some error → Shape.ErrorWithin codes error := by
    intro α wanted checked within h
    cases checked with
    | ok parts => cases h
    | error error =>
        cases h
        exact within
  cases keyword with
  | ifForm => exact within (Shape.within_conditional mem) h
  | defineForm => exact within (Shape.within_definition mem) h
  | lambdaForm => exact within (Shape.within_lambda mem) h
  | beginForm =>
      cases operands with
      | nil =>
          cases h
          exact Shape.errorWithin_plain rfl nofun
      | cons => cases h
  | letForm | letStarForm | letrecForm => exact within (Shape.within_letParts _ _ mem) h
  | andForm | orForm | condForm => cases h

end Form

/-! ## Faults in words -/

/-- Code is shown in an error message unless it holds an integer of too many digits. -/
theorem Value.describe_ok {v : Value} (writable : v.isUnwritable = false) (heap : Heap) :
    ∃ text, v.describe heap = .ok text := by
  unfold describe
  split
  · exact ⟨_, rfl⟩
  · exact ⟨v.inspect heap, by rw [inspect?, guarded, writable]; rfl⟩

/-- The class of an error of shape whose code can be read and shown. -/
theorem ShapeError.kind_report {error : ShapeError Value} (readable : ∀ digits, error ≠ .oversizedLiteral digits)
    {heap : Heap} (shown : ∀ found ∈ error.found?, ∃ text, found.describe heap = .ok text) :
    (error.report heap).kind = if error.concernsBinding then "InvalidBindingForm" else "MalformedForm" := by
  unfold report
  cases h : error.found? with
  | none =>
      cases error with
      | oversizedLiteral digits => exact absurd rfl (readable digits)
      | _ => rfl
  | some found =>
      obtain ⟨text, shown⟩ := shown found h
      simp only [shown]
      cases error with
      | oversizedLiteral digits => exact absurd rfl (readable digits)
      | _ => rfl

end ScopedLisp
