import ScopedLisp.Form.Shape
import ScopedLisp.Proofs.Reading

/-!
# ScopedLisp.Proofs.Form.Parts

What the checks of shapes hand on.  The parts of a form are taken from its operands, and so
is the code that an error of shape shows: nothing is made up but a `begin` around several
body forms.  A `CodeSet` is a set of code that knows this way of taking apart and putting
together; the parts of every shape belong to it if the operands do.
-/

namespace ScopedLisp

/-- Is a value code that can be evaluated: an atom, a list or an array? -/
def Value.isCode : Value → Bool
  | .atom _ | .list _ | .array _ => true
  | _ => false

/-- Code that consists of lists and of atoms of some texts. -/
inductive Value.Written (texts : String → Prop) : Value → Prop where
  | atom {text : String} : texts text → Written texts (.atom text)
  | list {items : List Value} : (∀ e ∈ items, Written texts e) → Written texts (.list items)

mutual
/-- An expression is written with any texts. -/
theorem Expr.written_toValue : ∀ e : Expr, e.toValue.Written fun _ => True
  | .atom _ => .atom trivial
  | .list items => .list (Expr.written_toValues items)

/-- Rows of expressions are written, as values, each of them. -/
theorem Expr.written_toValues : ∀ es : List Expr, ∀ v ∈ Expr.toValues es, v.Written fun _ => True
  | [] => nofun
  | e :: es => List.forall_mem_cons.mpr ⟨Expr.written_toValue e, Expr.written_toValues es⟩
end

/-- Written code holds no number: its literals are atoms. -/
theorem Value.Written.isUnwritable_eq_false {texts : String → Prop} {v : Value} (written : v.Written texts) :
    v.isUnwritable = false := by
  induction written with
  | atom _ => rfl
  | @list items _ ih =>
      rw [isUnwritable]
      clear * - ih
      induction items with
      | nil => rfl
      | cons e es ih' =>
          obtain ⟨first, rest⟩ := List.forall_mem_cons.mp ih
          rw [areUnwritable, first, ih' rest]
          rfl

/-- No atom in a value has a text: neither the value itself, nor an item of it. -/
inductive Value.Avoids (text : String) : Value → Prop where
  | atom {other : String} : other ≠ text → Avoids text (.atom other)
  | list {items : List Value} : (∀ e ∈ items, Avoids text e) → Avoids text (.list items)
  | array {items : List Value} : (∀ e ∈ items, Avoids text e) → Avoids text (.array items)
  | data {v : Value} : v.isCode = false → Avoids text v

theorem Value.Avoids.of_list {text : String} {items : List Value} :
    (Value.list items).Avoids text → ∀ e ∈ items, e.Avoids text
  | .list h => h

theorem Value.Avoids.of_array {text : String} {items : List Value} :
    (Value.array items).Avoids text → ∀ e ∈ items, e.Avoids text
  | .array h => h

mutual
/-- Code that was read avoids a text exactly if none of its atoms has it. -/
theorem Expr.avoids_toValue_iff (text : String) : ∀ e : Expr, e.toValue.Avoids text ↔ text ∉ e.atoms
  | .atom other => by
      rw [Expr.toValue, Expr.atoms, List.mem_singleton]
      refine ⟨fun avoids eq => ?_, fun ne => .atom fun eq => ne eq.symm⟩
      cases avoids with
      | atom ne => exact ne eq.symm
      | data notCode => cases notCode
  | .list items => by
      rw [Expr.toValue, Expr.atoms, ← Expr.avoids_toValues_iff text items]
      exact ⟨Value.Avoids.of_list, .list⟩

/-- A row of expressions avoids a text exactly if none of its atoms is that text. -/
theorem Expr.avoids_toValues_iff (text : String) :
    ∀ es : List Expr, (∀ v ∈ Expr.toValues es, v.Avoids text) ↔ text ∉ Expr.atomsOf es
  | [] => by simp [Expr.toValues, Expr.atomsOf]
  | e :: es => by
      rw [Expr.toValues, Expr.atomsOf, List.forall_mem_cons, Expr.avoids_toValue_iff text e,
        Expr.avoids_toValues_iff text es, List.mem_append, not_or]
end

/-- What avoids the word of a form is not the head of such a form. -/
theorem Value.Avoids.ofHead?_ne (keyword : Keyword) {head : Value} (h : head.Avoids keyword.name) :
    Keyword.ofHead? head ≠ some keyword := by
  intro found
  cases head with
  | atom text =>
      cases h with
      | atom ne => exact ne (Keyword.name_of_ofName? found).symm
      | data notCode => cases notCode
  | _ => cases found

/-- A set of code: a list belongs to it exactly if its items do, and so does the word `begin`. -/
structure CodeSet where
  mem : Value → Prop
  list {items : List Value} : mem (.list items) ↔ ∀ e ∈ items, mem e
  array {items : List Value} : mem (.array items) → ∀ e ∈ items, mem e
  begin_mem : mem (.atom "begin")

namespace CodeSet

/-- All code. -/
def all : CodeSet := ⟨fun _ => True, by simp, by simp, trivial⟩

/-- The code without atoms of one text, which is not the word `begin`. -/
def avoiding (text : String) (ne : "begin" ≠ text) : CodeSet where
  mem := Value.Avoids text
  list := ⟨Value.Avoids.of_list, .list⟩
  array := Value.Avoids.of_array
  begin_mem := .atom ne

/-- The code that is written with some texts, the word `begin` among them. -/
def written (texts : String → Prop) (begin_mem : texts "begin") : CodeSet where
  mem := Value.Written texts
  list := ⟨fun | .list items => items, .list⟩
  array := nofun
  begin_mem := .atom begin_mem

end CodeSet

namespace Shape

/-- An error of shape about code of a set: it shows code of the set only, and a refused integer is one
of the set. -/
structure ErrorWithin (codes : CodeSet) (error : ShapeError Value) : Prop where
  found : ∀ shown ∈ error.found?, codes.mem shown
  oversized : ∀ digits, error = .oversizedLiteral digits →
    ∃ text, codes.mem (.atom text) ∧ Literal.ofText text = .oversized digits

/-- The parts are as wanted, or the error is within the set. -/
def Within {α : Type} (codes : CodeSet) (wanted : α → Prop) : Checked α → Prop
  | .ok parts => wanted parts
  | .error error => ErrorWithin codes error

variable {α β : Type} {codes : CodeSet}

/-- Two checks in a row stay within the code, if each does. -/
theorem Within.bind {wanted : α → Prop} {wanted' : β → Prop} {x : Checked α}
    {next : α → Checked β} (hx : Within codes wanted x)
    (hnext : ∀ a, wanted a → Within codes wanted' (next a)) : Within codes wanted' (x >>= next) := by
  cases x with
  | ok a => exact hnext a hx
  | error error => exact hx

/-- An error that shows one piece of code of the set. -/
theorem errorWithin_found {error : ShapeError Value} {shown : Value} (h : error.found? = some shown)
    (mem : codes.mem shown) : ErrorWithin codes error where
  found v hv := by
    rw [h] at hv
    cases hv
    exact mem
  oversized digits eq := by
    rw [eq] at h
    cases h

/-- An error that shows no code. -/
theorem errorWithin_plain {error : ShapeError Value} (h : error.found? = none)
    (named : ∀ digits, error ≠ .oversizedLiteral digits) : ErrorWithin codes error where
  found v hv := by
    rw [h] at hv
    cases hv
  oversized digits eq := absurd eq (named digits)

/-! ## Parts that forms share -/

/-- What is refused for a name is the code itself. -/
theorem within_nameOf (what : String) {expr : Value} (mem : codes.mem expr) :
    Within codes (fun _ => True) (nameOf what expr) := by
  cases expr with
  | atom text =>
      simp only [nameOf]
      cases h : Literal.ofText text with
      | name => exact trivial
      | oversized digits =>
          refine ⟨nofun, ?_⟩
          rintro _ ⟨⟩
          exact ⟨text, mem, h⟩
      | _ => exact errorWithin_found rfl mem
  | _ => exact errorWithin_found rfl mem

/-- What is refused in a row of names is of the row. -/
theorem within_namesOf (what : String) {exprs : List Value} (mem : ∀ e ∈ exprs, codes.mem e) :
    Within codes (fun _ => True) (namesOf what exprs) := by
  induction exprs with
  | nil => exact trivial
  | cons e es ih =>
      refine (within_nameOf what (mem e List.mem_cons_self)).bind fun name _ => ?_
      exact (ih fun e' h => mem e' (List.mem_cons_of_mem e h)).bind fun names _ => trivial

/-- What is refused in a list of parameters is that list or a part of it. -/
theorem within_formals (form : String) {expr : Value} (mem : codes.mem expr) :
    Within codes (fun _ => True) (formals form expr) := by
  cases expr with
  | list items =>
      refine (within_namesOf _ (codes.list.mp mem)).bind fun names _ => ?_
      split
      · exact trivial
      · exact errorWithin_found rfl mem
  | _ => exact errorWithin_found rfl mem

/-- The expression of a binding is a part of it, and so is what is refused. -/
theorem within_bindingOf (form : String) {expr : Value} (mem : codes.mem expr) :
    Within codes (fun binding => codes.mem binding.2) (bindingOf form expr) := by
  unfold bindingOf
  split
  next name value =>
    have parts := codes.list.mp mem
    exact (within_nameOf _ (parts name (by simp))).bind fun _ _ => parts value (by simp)
  · exact errorWithin_found rfl mem

/-- The expressions of bindings are parts of them, and so is what is refused. -/
theorem within_bindingsOf (form : String) {exprs : List Value} (mem : ∀ e ∈ exprs, codes.mem e) :
    Within codes (fun bindings => ∀ binding ∈ bindings, codes.mem binding.2)
      (bindingsOf form exprs) := by
  induction exprs with
  | nil => simp [bindingsOf, Within]
  | cons e es ih =>
      refine (within_bindingOf form (mem e List.mem_cons_self)).bind fun binding hbinding => ?_
      refine (ih fun e' h => mem e' (List.mem_cons_of_mem e h)).bind fun bindings hbindings => ?_
      exact List.forall_mem_cons.mpr ⟨hbinding, hbindings⟩

/-- The expressions of a list of bindings are parts of it, and so is what is refused. -/
theorem within_bindings (form : String) (duplicates : Bool) {expr : Value} (mem : codes.mem expr) :
    Within codes (fun bindings => ∀ binding ∈ bindings, codes.mem binding.2)
      (bindings form duplicates expr) := by
  cases expr with
  | list items =>
      refine (within_bindingsOf form (codes.list.mp mem)).bind fun found hfound => ?_
      split
      · exact hfound
      · exact errorWithin_found rfl mem
  | _ => exact errorWithin_found rfl mem

/-- The body made of several forms is code as they are. -/
theorem within_body (form : String) {forms : List Value} (mem : ∀ e ∈ forms, codes.mem e) :
    Within codes codes.mem (body form forms) := by
  unfold body
  split
  · exact errorWithin_plain rfl nofun
  · exact mem _ List.mem_cons_self
  · exact codes.list.mpr (List.forall_mem_cons.mpr ⟨codes.begin_mem, mem⟩)

/-! ## The forms -/

/-- The parts of an `if` are its operands. -/
theorem within_conditional {operands : List Value} (mem : ∀ e ∈ operands, codes.mem e) :
    Within codes (fun parts => codes.mem parts.1 ∧ codes.mem parts.2.1 ∧
      ∀ negative ∈ parts.2.2, codes.mem negative) (conditional operands) := by
  unfold conditional
  split
  · exact ⟨mem _ (by simp), mem _ (by simp), by simp⟩
  · exact ⟨mem _ (by simp), mem _ (by simp), fun _ h => by cases h; exact mem _ (by simp)⟩
  · exact errorWithin_plain rfl nofun

/-- The body of a `lambda` is code as its operands are. -/
theorem within_lambda {operands : List Value} (mem : ∀ e ∈ operands, codes.mem e) :
    Within codes (fun parts => codes.mem parts.2) (lambda operands) := by
  cases operands with
  | nil => exact errorWithin_plain rfl nofun
  | cons parameters forms =>
      obtain ⟨mem_parameters, mem_forms⟩ := List.forall_mem_cons.mp mem
      refine (within_formals _ mem_parameters).bind fun _ _ => ?_
      exact (within_body _ mem_forms).bind fun _ h => h

/-- The code in a definition. -/
def Definition.code : Definition → Value
  | .value _ expr => expr
  | .procedure _ _ body => body

/-- The name that a definition defines. -/
def Definition.name : Definition → String
  | .value name _ | .procedure name _ _ => name

/-- What a `define` evaluates, or keeps as a body, is code as its operands are. -/
theorem within_definition {operands : List Value} (mem : ∀ e ∈ operands, codes.mem e) :
    Within codes (fun definition => codes.mem definition.code) (definition operands) := by
  unfold definition
  split
  · exact errorWithin_plain rfl nofun
  · exact errorWithin_plain rfl nofun
  next head parameters forms =>
    obtain ⟨mem_header, mem_forms⟩ := List.forall_mem_cons.mp mem
    obtain ⟨mem_head, mem_parameters⟩ := List.forall_mem_cons.mp (codes.list.mp mem_header)
    refine (within_nameOf _ mem_head).bind fun name _ => ?_
    refine (within_formals _ (codes.list.mpr mem_parameters)).bind fun _ _ => ?_
    exact (within_body _ mem_forms).bind fun _ h => h
  next target expr _ _ =>
    exact (within_nameOf _ (mem target (by simp))).bind fun name _ => mem expr (by simp)
  · exact errorWithin_found rfl (codes.list.mpr mem)

/-- The expressions and the body of a binding form are code as its operands are. -/
theorem within_letParts (form : String) (duplicates : Bool) {operands : List Value}
    (mem : ∀ e ∈ operands, codes.mem e) :
    Within codes (fun parts => (∀ binding ∈ parts.1, codes.mem binding.2) ∧ codes.mem parts.2)
      (letParts form duplicates operands) := by
  cases operands with
  | nil => exact errorWithin_plain rfl nofun
  | cons spec forms =>
      obtain ⟨mem_spec, mem_forms⟩ := List.forall_mem_cons.mp mem
      refine (within_body form mem_forms).bind fun expr hexpr => ?_
      exact (within_bindings form duplicates mem_spec).bind fun bindings h => ⟨h, hexpr⟩

end Shape

end ScopedLisp
