import ScopedLisp.Proofs.Evaluation.AppliedLambda
import ScopedLisp.Proofs.Evaluation.MalformedForms
import ScopedLisp.Proofs.Heap.Lookup
import ScopedLisp.Proofs.Literal.Grammar

/-!
# ScopedLisp.Proofs.Evaluation.Literals

Literals and names.  An atom is the one or the other by its text alone, and everything that deals with atoms
agrees on which: a form binds names and refuses literals, evaluation looks names up and takes literals for what
they mean, whatever is bound.

`Form.binders` lists the expressions in a form that stand where it wants names.  A proper form has nothing but
names there (`Proper.binders`), and every name can stand there: `Form.bindAndRead` binds one and reads it back
(`Call.unbounded_bindAndRead`).
-/

namespace ScopedLisp

open Evaluation

namespace Form

/-- The forms that bind names. -/
def binding : List Keyword := [.defineForm, .lambdaForm, .letForm, .letStarForm, .letrecForm]

/-- The expression in a binding that is to be a name. -/
def boundName? : Value → Option Value
  | .list [name, _] => some name
  | _ => none

/-- The expressions in a form that stand where it wants names to bind. -/
def binders : Keyword → List Value → List Value
  | .defineForm, .list header :: _ => header
  | .defineForm, [target, _] => [target]
  | .lambdaForm, .list parameters :: _ => parameters
  | .letForm, .list bindings :: _ | .letStarForm, .list bindings :: _
  | .letrecForm, .list bindings :: _ => bindings.filterMap boundName?
  | _, _ => []

variable {keyword : Keyword} {operands : List Value} {name : String}

theorem filterMap_boundName? (bindings : List (String × Value)) :
    (bindings.map bindingCode).filterMap boundName? = bindings.map (.atom ·.1) := by
  induction bindings with
  | nil => rfl
  | cons binding bindings ih =>
      rw [List.map_cons, List.filterMap_cons, ih]
      rfl

/-- In a proper form, names stand where names are wanted. -/
theorem Proper.binders (proper : Proper keyword operands) :
    ∀ e ∈ binders keyword operands, ∃ name, e = .atom name ∧ Literal.ofText name = .name := by
  have of_names : ∀ names : List String, (∀ name ∈ names, Literal.ofText name = .name) →
      ∀ e ∈ names.map Value.atom, ∃ name, e = .atom name ∧ Literal.ofText name = .name := by
    intro names are_names e mem
    obtain ⟨name, among, rfl⟩ := List.mem_map.mp mem
    exact ⟨name, rfl, are_names name among⟩
  have of_bindings : ∀ {bindings : List (String × Value)},
      (∀ binding ∈ bindings, Literal.ofText binding.1 = .name) →
      ∀ e ∈ (bindings.map bindingCode).filterMap boundName?,
        ∃ name, e = .atom name ∧ Literal.ofText name = .name := by
    intro bindings are_names e mem
    rw [filterMap_boundName?] at mem
    obtain ⟨binding, among, rfl⟩ := List.mem_map.mp mem
    exact ⟨binding.1, rfl, are_names binding among⟩
  cases proper with
  | ifThen | ifThenElse | sequence | all | any => simp [Form.binders]
  | @define name e is_name => exact of_names [name] (by simpa using is_name)
  | @defineProcedure name names body is_name are_names =>
      exact of_names (name :: names) (List.forall_mem_cons.mpr ⟨is_name, are_names⟩)
  | lambda are_names => exact of_names _ are_names
  | letTogether are_names | letInOrder are_names | letRecursive are_names => exact of_bindings are_names

/-- Where a literal stands for a name, the form ends without a value and without a change, whatever its calls
would come to. -/
theorem run_of_literal {text : String} (mem : .atom text ∈ binders keyword operands)
    (literal : Literal.ofText text ≠ .name) (remaining : Nat) (call : Caller) (env : FrameId) (heap : Heap) :
    ∃ failure, run remaining call keyword operands env heap = .error failure heap := by
  have checked : keyword ≠ .condForm := by
    rintro rfl
    simp [binders] at mem
  have improper : ¬Proper keyword operands := fun proper => by
    obtain ⟨name, ⟨⟩, is_name⟩ := proper.binders _ mem
    exact literal is_name
  obtain ⟨error, fault⟩ := Option.ne_none_iff_exists'.mp fun faultless =>
    improper ((fault?_eq_none_iff checked).mp faultless)
  rw [run_of_fault fault, shaped]
  split
  · exact ⟨_, rfl⟩
  · exact ⟨_, rfl⟩

/-- Bind a name to the value of an expression by a form, and read it back. -/
def bindAndRead (keyword : Keyword) (name : String) (e : Value) : Value :=
  match keyword with
  | .defineForm => letCode .letForm [] [defineCode (name, e), .atom name]
  | .lambdaForm => .list [lambdaCode [name] [.atom name], e]
  | keyword => letCode keyword [(name, e)] [.atom name]

end Form

/-- What a literal stands for, or the error of reading it; nothing in the case of a name. -/
def Literal.result? : Literal → Option (Except EvalError Value)
  | .boolean b => some (.ok (.bool b))
  | .integer i => some (.ok (.int i))
  | .float x => some (.ok (.number (.float x)))
  | .oversized digits => some (.error (.oversizedLiteral digits))
  | .name => none

namespace Call

variable {keyword : Keyword} {name text : String} (env : FrameId) (heap : Heap)

/-! ## Atoms -/

/-- A literal is taken for what it means, whatever is bound, and a name is looked up. -/
theorem perform_atom (levels : Nat) : perform (levels + 1) (.eval (.atom text) env) heap =
    query (fun heap => (Literal.ofText text).result?.getD (heap.lookup env text)) heap := by
  simp only [perform, step, evalCode, evalAtom]
  cases Literal.ofText text <;> rfl

/-- A literal is evaluated without a look at the heap. -/
theorem perform_literal {v : Value} (literal : (Literal.ofText text).result? = some (.ok v)) (levels : Nat) :
    perform (levels + 1) (.eval (.atom text) env) = pure v := by
  funext heap
  rw [perform_atom, literal]
  rfl

/-- Evaluation looks an atom up exactly if it is a name. -/
theorem looks_up_iff : (∀ levels env heap, perform (levels + 1) (.eval (.atom text) env) heap =
    query (·.lookup env text) heap) ↔ Literal.ofText text = .name := by
  simp only [perform_atom]
  constructor
  · intro looks_up
    -- in an empty heap nothing can be found, and the error is not that of a literal
    have unbound := looks_up 0 0 .empty
    cases literal : Literal.ofText text with
    | name => rfl
    | _ => rw [literal] at unbound; cases unbound
  · intro is_name
    simp only [is_name, Literal.result?, Option.getD_none, implies_true]

theorem unbounded_name (is_name : Literal.ofText name = .name) :
    unbounded (.eval (.atom name) env) = query (·.lookup env name) := by
  rw [unbounded_eval, evalCode, evalAtom, is_name]

/-! ## Binding names -/

/-- The word for a truth value. -/
def truth (b : Bool) : Value := .atom (if b then "#t" else "#f")

theorem unbounded_truth (b : Bool) : unbounded (.eval (truth b) env) = pure (Value.bool b) := by
  rw [unbounded_eval]
  cases b <;> rfl

/-- A name means what the frame at hand says. -/
theorem unbounded_own (is_name : Literal.ofText name = .name) {b : Bool} {f : FrameId} {heap : Heap}
    (h : heap.get? f name = some (.bool b)) : unbounded (.eval (.atom name) f) heap = .ok (.bool b) heap := by
  rw [unbounded_name f is_name, query, Heap.lookup_of_get? h (by simp)]

/-- A name that was written in a new frame. -/
theorem get?_write_newFrame (slots : List (String × Value)) (name : String) (v : Value) :
    ((heap.newFrame (some env) slots).2.write heap.frames.size name v).get? heap.frames.size name = some v :=
  Heap.get?_write_own _ (Heap.lt_size_newFrame heap (some env) slots) name v

theorem bindTogether_truth (is_name : Literal.ofText name = .name) (b : Bool) :
    Form.bindTogether unbounded [name] [truth b] [.atom name] env heap =
      .ok (.bool b) (heap.newFrame (some env) [(name, .bool b)]).2 := by
  have values : evalEach (fun e => unbounded (.eval e env)) [truth b] heap = .ok [.bool b] heap := by
    simp only [evalEach, unbounded_truth]
    rfl
  rw [Form.bindTogether]
  refine (bind_of_ok values _).trans ((bind_of_ok rfl _).trans ?_)
  exact unbounded_own is_name ((Heap.get?_newFrame_own ..).trans List.lookup_cons_self)

theorem unbounded_defineCode_truth (is_name : Literal.ofText name = .name) (b : Bool) :
    unbounded (.eval (Form.defineCode (name, truth b)) env) heap = .ok .nil (heap.write env name (.bool b)) := by
  rw [Form.defineCode, unbounded_code, unbounded_define, Shape.definition_code is_name]
  refine (bind_of_ok rfl _).trans ?_
  simp only [unbounded_truth]
  rfl

/-- What a form binds a name to is what the name means in its body. -/
theorem unbounded_bindAndRead (mem : keyword ∈ Form.binding) (is_name : Literal.ofText name = .name) (b : Bool) :
    ∃ after, unbounded (.eval (Form.bindAndRead keyword name (truth b)) env) heap = .ok (.bool b) after := by
  have are_names : ∀ name' ∈ [name], Literal.ofText name' = .name := by simpa using is_name
  have are_bound : ∀ binding ∈ [(name, truth b)], Literal.ofText binding.1 = .name := by simpa using is_name
  have distinct : [name].Nodup := List.nodup_singleton name
  have body : [Value.atom name] ≠ [] := List.cons_ne_nil _ _
  simp only [Form.binding, List.mem_cons, List.not_mem_nil, or_false] at mem
  rcases mem with rfl | rfl | rfl | rfl | rfl
  · let forms := [Form.defineCode (name, truth b), .atom name]
    have no_names : ∀ name' ∈ ([] : List String), Literal.ofText name' = .name := nofun
    have count : ([] : List String).length = ([] : List Value).length := rfl
    have code := unbounded_letCode no_names List.nodup_nil count (List.cons_ne_nil _ _ : forms ≠ []) env
    let mid := (heap.newFrame (some env) []).2
    have defined := unbounded_defineCode_truth heap.frames.size mid is_name b
    refine ⟨mid.write heap.frames.size name (.bool b), (congrFun code heap).trans ?_⟩
    rw [Form.bindTogether]
    refine (bind_of_ok rfl _).trans ((bind_of_ok rfl _).trans ((bind_of_ok defined _).trans ?_))
    exact unbounded_own is_name (get?_write_newFrame env heap [] name (.bool b))
  · let closure : Closure := ⟨[name], Form.sequence [.atom name], env, none⟩
    let mid := (heap.newProcedure (.closure closure)).2
    have code : unbounded (.eval (.list [Form.lambdaCode [name] [.atom name], truth b]) env) heap =
        Form.bindTogether unbounded [name] [truth b] [.atom name] env mid := by
      refine unbounded_appliedLambda are_names distinct rfl body fun vs after ran => ?_
      simp only [evalEach, unbounded_truth] at ran
      cases ran
      exact Array.getElem?_push_size
    exact ⟨_, code.trans (bindTogether_truth env mid is_name b)⟩
  · have count : [name].length = [truth b].length := rfl
    have code := unbounded_letCode are_names distinct count body env
    exact ⟨_, (congrFun code heap).trans (bindTogether_truth env heap is_name b)⟩
  · let mid := (heap.newFrame (some env) []).2
    refine ⟨mid.write heap.frames.size name (.bool b), ?_⟩
    simp only [Form.bindAndRead, Form.letCode, unbounded_code, unbounded_letStar,
      Shape.letParts_code are_bound (Or.inl rfl) body]
    refine (bind_of_ok rfl _).trans ((bind_of_ok rfl _).trans ?_)
    simp only [Form.bindInOrder, unbounded_truth]
    refine (bind_of_ok rfl _).trans ?_
    exact unbounded_own is_name (get?_write_newFrame env heap [] name (.bool b))
  · let mid := (heap.newFrame (some env) [(name, .unassigned)]).2
    refine ⟨mid.write heap.frames.size name (.bool b), ?_⟩
    simp only [Form.bindAndRead, Form.letCode, unbounded_code, unbounded_letrec,
      Shape.letParts_code are_bound (Or.inr distinct) body]
    refine (bind_of_ok rfl _).trans ((bind_of_ok rfl _).trans ?_)
    simp only [Form.assignInOrder, unbounded_truth]
    refine (bind_of_ok rfl _).trans ?_
    exact unbounded_own is_name (get?_write_newFrame env heap _ name (.bool b))

end Call

open Literal (ofText)
open Literal.Grammar

/-- **Literals are the words of the grammar, and all other texts are names.**  For every text:

* It is a boolean exactly if it is one of the spellings of one.
* It is an integer exactly if it is a sign and at most 4300 digits, and then the one that they stand for.  With more
  digits it is refused by an error of the host, whatever is bound.
* It is a double exactly if it is no integer and a word of the grammar of doubles, and then the one next to what
  its sign, digits and exponent stand for.
* It is a name exactly if it is none of these.  Names, and nothing else, are looked up in evaluation.  Each form
  that binds names can bind any of them; and where a form wants a name it takes nothing else, but ends without a
  value and without a change. -/
theorem literals_are_the_grammar (text : String) :
    (∀ b, ofText text = .boolean b ↔ text ∈ spellings b) ∧
    (∀ i, ofText text = .integer i ↔
      ∃ s ∈ sign, ∃ ds ∈ digits, text.toList = s ++ ds ∧ ds.length ≤ 4300 ∧ i = signed s ds) ∧
    (∀ n, ofText text = .oversized n ↔
      ∃ s ∈ sign, ∃ ds ∈ digits, text.toList = s ++ ds ∧ 4300 < ds.length ∧ n = ds.length) ∧
    (∀ n, ofText text = .oversized n → ∃ error : EvalError, error.kind = "ValueError" ∧ ∀ levels env heap,
      Call.perform (levels + 1) (.eval (.atom text) env) heap = .error (.error error) heap) ∧
    ((∃ x, ofText text = .float x) ↔ text.toList ∈ double ∧ text.toList ∉ integer) ∧
    (∀ x, ofText text = .float x ↔ text.toList ∉ integer ∧ ∃ s ∈ sign, ∃ body whole fraction e,
      text.toList = s ++ body ∧ DoubleParts body whole fraction e ∧
      x = Number.floatOfDecimal (s = ['-']) (positional (whole ++ fraction)) (e - fraction.length)) ∧
    (ofText text = .name ↔ (∀ b, text ∉ spellings b) ∧ text.toList ∉ double) ∧
    (ofText text = .name ↔ ∀ levels env heap,
      Call.perform (levels + 1) (.eval (.atom text) env) heap = query (·.lookup env text) heap) ∧
    (ofText text = .name → ∀ keyword ∈ Form.binding, ∀ b env heap, ∃ after,
      ComesTo (fun levels => Call.perform levels (.eval (Form.bindAndRead keyword text (Call.truth b)) env)) heap
        (.ok (.bool b) after)) ∧
    (ofText text ≠ .name → ∀ keyword operands, .atom text ∈ Form.binders keyword operands → ∀ levels env heap,
      ∃ failure, Call.perform levels (.form keyword operands env) heap = .error failure heap) := by
  have means (literal : Literal) : ofText text = literal ↔ Means text literal := Literal.ofText_eq_iff
  refine ⟨fun b => (means _).trans means_boolean_iff, fun i => (means _).trans means_integer_iff,
    fun n => (means _).trans means_oversized_iff, fun n oversized => ?_,
    (exists_congr fun x => means _).trans exists_means_float_iff, fun x => (means _).trans means_float_iff,
    (means _).trans means_name_iff, Call.looks_up_iff.symm, fun is_name keyword mem b env heap => ?_,
    fun literal keyword operands mem levels env heap => ?_⟩
  · refine ⟨.oversizedLiteral n, rfl, fun levels env heap => ?_⟩
    rw [Call.perform_atom, oversized]
    rfl
  · obtain ⟨after, ran⟩ := Call.unbounded_bindAndRead env heap mem is_name b
    exact ⟨after, Call.comesTo_iff.mpr ⟨ran, settled_ok _ _⟩⟩
  · cases levels with
    | zero => exact ⟨_, rfl⟩
    | succ levels => exact Form.run_of_literal mem literal levels _ env heap

/-- Texts that are almost numbers. -/
example : [".e1", "+", "1e", "-.", "1.e+"].map ofText = List.replicate 5 .name := by
  rfl

end ScopedLisp
