import ScopedLisp.Proofs.Evaluation.Literals
import ScopedLisp.Proofs.Literal.Written
import ScopedLisp.Proofs.Reading.RoundTrip
import ScopedLisp.Proofs.Session.Streaming

/-!
# ScopedLisp.Proofs.Session.Printing

Values that are displayed, read and evaluated again.  What is displayed for an integer goes the way of every source
text: it is one token, one atom, and a literal, and so it comes back as the integer in whatever session and
whatever is bound; also where it is an item of a longer list (`Number.ReadsBack.in_list`).  Booleans come back
as literals too, and `nil` is displayed as its name; so no two of these values look the same
(`Value.Constant.eq_of_display`).
-/

namespace ScopedLisp

open Evaluation

variable {text : String} {i : Int} {v w : Value} {session : Session}

/-! ## What is displayed -/

namespace Value

/-- The integers that are not too long to be written, the booleans, and `nil`. -/
inductive Constant : Value → Prop where
  | int {i : Int} (fits : (Nat.digits 10 i.natAbs).length ≤ Number.digitLimit) : Constant (.int i)
  | bool (b : Bool) : Constant (.bool b)
  | nil : Constant .nil

namespace Constant

/-- A constant can always be displayed, in the same way in every session. -/
theorem display_eq (constant : v.Constant) (positive : 0 < session.depthLimit) :
    Step.display v session = .ok (v.display .empty) session := by
  have flat : v.height = 0 := by cases constant <;> rfl
  have writable : v.isUnwritable = false := by
    cases constant with
    | @int i fits =>
        have small : i.natAbs < 10 ^ Number.digitLimit := (Nat.digits_length_le_iff (by decide) _).mp fits
        exact Bool.eq_false_iff.mpr fun large => Nat.not_le.mpr small (Number.isUnwritable_iff.mp large)
    | bool | nil => rfl
  have same : v.display session.heap = v.display .empty := by cases constant <;> rfl
  rw [Step.display, Step.write, flat, if_pos positive, Step.query, display?, guarded, writable, same]
  rfl

/-- The text of a constant is a literal for it, but for `nil`, whose text is a name. -/
theorem ofText_display (constant : v.Constant) :
    (Literal.ofText (v.display .empty)).result?.getD (.ok .nil) = .ok v := by
  cases constant with
  | @int i fits =>
      have text : (Value.int i).display .empty = (Number.int i).text := rfl
      rw [text, Literal.ofText_text_int fits]
      rfl
  | bool b => cases b <;> rfl
  | nil => rfl

/-- Constants that look the same are the same. -/
theorem eq_of_display (first : v.Constant) (second : w.Constant) (same : v.display .empty = w.display .empty) :
    v = w := by
  have both := first.ofText_display
  rw [same, second.ofText_display] at both
  cases both
  rfl

end Constant

end Value

/-! ## What is read and evaluated -/

/-- What is written for an integer can be written as one atom. -/
theorem Number.isAtom_text (i : Int) : (Number.int i).text ≠ "" ∧ Lexer.IsAtom (Number.int i).text.toList := by
  obtain ⟨nonempty, isAtom⟩ := Literal.Grammar.isAtom_of_mem_integer (intText_mem_integer i)
  refine ⟨?_, ?_⟩
  · rwa [text, Ne, ← String.toList_eq_nil_iff, String.toList_ofList]
  · rwa [text, String.toList_ofList]

/-- A text stands for a value: it is one token and one atom, and every interpreter takes it for the value
whatever is bound, and does nothing else. -/
structure Value.ReadsBack (text : String) (v : Value) : Prop where
  token : lex text = ⟨[.symbol text 0], none⟩
  atom : read text = .ok (.atom text)
  value (levels : Nat) (env : FrameId) : Call.perform (levels + 1) (.eval (.atom text) env) = pure v
  result (interpreter : Interpreter) (session : Session) : 0 < session.depthLimit →
    ∃ log, interpreter.eval text session = .ok v { session with log := log }

/-- A list with a text among its items. -/
def Expr.listAround (before : List Expr) (text : String) (after : List Expr) : Expr :=
  .list (before ++ .atom text :: after)

/-- The same text as an item of a list that is written: it is one of the tokens and one of the atoms, and the value is
what the list has in its place when it is evaluated, as an operand or as the operator. -/
structure Value.ReadsBackIn (before : List Expr) (text : String) (after : List Expr) (v : Value) : Prop where
  closed : (lex (Expr.listAround before text after).toSource).failure = none
  tokens : (lex (Expr.listAround before text after).toSource).pending.map Token.lexeme? =
    ([.opening] ++ Expr.lexemesOf before ++ [.atom text] ++ Expr.lexemesOf after ++ [.closing] : List Lexeme).map some
  form : read (Expr.listAround before text after).toSource = .ok (Expr.listAround before text after)
  result (interpreter : Interpreter) : interpreter.eval (Expr.listAround before text after).toSource =
    interpreter.evalForm (Expr.listAround before text after).toValue
  operand {head : Expr} {operands : List Expr} (levels : Nat) (env : FrameId) :
    before = head :: operands → Keyword.ofHead? head.toValue = none →
    let call := Call.perform (levels + 2)
    Call.perform (levels + 3) (.eval (Expr.listAround before text after).toValue env) = (do
      let procedure ← call (.eval head.toValue env)
      let vs ← evalEach (fun e => call (.nested (.eval e env))) (operands.map Expr.toValue)
      let vs' ← evalEach (fun e => call (.nested (.eval e env))) (after.map Expr.toValue)
      call (.apply procedure (vs ++ v :: vs') env))
  operator (levels : Nat) (env : FrameId) : before = [] →
    let call := Call.perform (levels + 1)
    Call.perform (levels + 2) (.eval (Expr.listAround before text after).toValue env) = (do
      let vs ← evalEach (fun e => call (.nested (.eval e env))) (after.map Expr.toValue)
      call (.apply v vs env))

section Literals

variable (literal : (Literal.ofText text).result? = some (.ok v))
include literal

theorem Step.evaluate_literal (positive : 0 < session.depthLimit) (env : FrameId) :
    evaluate (.atom text) env session = .ok v session := by
  obtain ⟨heap, limit, threshold, log, objects⟩ := session
  obtain ⟨levels, rfl⟩ := Nat.exists_eq_succ_of_ne_zero (Nat.ne_of_gt positive)
  rw [evaluate, Call.perform_literal env literal]
  rfl

/-- The head of a form is no literal. -/
theorem Keyword.ofHead?_literal : ofHead? (.atom text) = none := by
  by_contra some
  obtain ⟨keyword, found⟩ := Option.ne_none_iff_exists'.mp some
  rw [← name_of_ofName? found] at literal
  cases keyword <;> cases literal

/-- A literal that can be written as one atom reads back as what it stands for. -/
theorem Value.readsBack_of_literal (word : text ≠ "" ∧ Lexer.IsAtom text.toList) : ReadsBack text v := by
  have reads : read text = .ok (.atom text) := by
    have written := read_toSource (Expr.writable_atom word)
    rwa [Expr.toSource, Expr.writeBefore, List.append_nil, String.ofList_toList] at written
  refine ⟨lex_atom word.1 word.2, reads, fun levels env => Call.perform_literal env literal levels, ?_⟩
  intro interpreter session positive
  have evaluated (log : Array String) :
      Step.evaluate (.atom text) interpreter.root { session with log := log } =
        .ok v { session with log := log } :=
    @Step.evaluate_literal _ _ { session with log := log } literal positive _
  rw [interpreter.eval_of_readAll_singleton ((read_eq_ok_iff _ _).mp reads)]
  obtain ⟨log, ⟨v', after, ended, result⟩ | ⟨error, after, _, ended, -⟩⟩ :=
    interpreter.evalForm_written (e := .atom text) positive fun _ => positive
  · cases (evaluated log).symm.trans ended
    exact ⟨log, result⟩
  · cases (evaluated log).symm.trans ended

/-- And it reads back as an item of a list. -/
theorem Value.readsBackIn_of_literal (word : text ≠ "" ∧ Lexer.IsAtom text.toList) {before after : List Expr}
    (written : ∀ e ∈ before ++ after, e.Writable) : ReadsBackIn before text after v := by
  have writable : (Expr.listAround before text after).Writable := by
    rw [Expr.listAround, Expr.writable_list]
    simpa [or_imp, forall_and, Expr.writable_atom word] using written
  have reads := (read_eq_ok_iff _ _).mp (read_toSource writable)
  obtain ⟨closed, tokens⟩ := (readAll_eq_ok_iff_spelling _ _).mp reads
  have value : (Expr.listAround before text after).toValue =
      .list (before.map Expr.toValue ++ .atom text :: after.map Expr.toValue) := by
    simp [Expr.listAround, Expr.toValue, Expr.toValues_eq_map]
  refine ⟨closed, ?_, read_toSource writable, fun interpreter => interpreter.eval_of_readAll_singleton reads, ?_, ?_⟩
  · rw [tokens]
    simp [Expr.listAround, Expr.lexemesOf, Expr.lexemes, Expr.lexemesOf_append]
  · rintro head operands levels env rfl none
    have item : Call.perform (levels + 2) (.nested (.eval (.atom text) env)) = pure v :=
      Call.perform_literal env literal levels
    rw [value, List.map_cons, List.cons_append, Call.perform_application none, Call.evalEach_append]
    simp [evalEach, item]
  · rintro levels env rfl
    rw [value, List.map_nil, List.nil_append, Call.perform_application (Keyword.ofHead?_literal literal),
      Call.perform_literal env literal, pure_bind]

end Literals

/-- **Printed integers read back.**  What is displayed for an integer of at most 4300 digits, of either sign and in any
session, is one token, one atom, and evaluates to this integer without a look at the environment; so it does among the
items of a list that is written, whatever the others are, as long as they can be written too.  And integers, booleans
and `nil` are displayed with the same text only if they are the same. -/
theorem printed_integers_read_back :
    (∀ i : Int, (Nat.digits 10 i.natAbs).length ≤ 4300 →
      let text := (Number.int i).text
      (∀ session, 0 < session.depthLimit → Step.display (.int i) session = .ok text session) ∧
      Value.ReadsBack text (.int i) ∧
      ∀ before after : List Expr, (∀ e ∈ before ++ after, e.Writable) →
        Value.ReadsBackIn before text after (.int i)) ∧
    ∀ v w : Value, v.Constant → w.Constant → ∃ t t',
      (∀ session, 0 < session.depthLimit →
        Step.display v session = .ok t session ∧ Step.display w session = .ok t' session) ∧
      (t = t' ↔ v = w) := by
  constructor
  · intro i fits text
    have constant : (Value.int i).Constant := .int fits
    have literal : (Literal.ofText text).result? = some (.ok (.int i)) := by
      rw [Literal.ofText_text_int fits]
      rfl
    have word := Number.isAtom_text i
    refine ⟨fun session positive => constant.display_eq positive, Value.readsBack_of_literal literal word, ?_⟩
    exact fun before after written => Value.readsBackIn_of_literal literal word written
  · intro v w first second
    refine ⟨v.display .empty, w.display .empty, fun session positive => ?_, ?_⟩
    · exact ⟨first.display_eq positive, second.display_eq positive⟩
    · exact ⟨first.eq_of_display second, fun same => same ▸ rfl⟩

/-- A negative integer, alone and in a list, and next to `nil`. -/
theorem printed_integers_read_back_negative :
    (Nat.digits 10 (-45 : Int).natAbs).length ≤ 4300 ∧ (∀ e ∈ [Expr.atom "+"] ++ [.atom "x"], e.Writable) ∧
    (∃ log, (Interpreter.mk 0).eval "-45" .start = .ok (.int (-45)) { Session.start with log := log }) ∧
    read "(+ -45 x)" = .ok (.list [.atom "+", .atom "-45", .atom "x"]) ∧
    ∃ t t', Step.display (.int (-45)) .start = .ok t .start ∧ Step.display .nil .start = .ok t' .start ∧
      t ≠ t' := by
  have fits : (Nat.digits 10 (-45 : Int).natAbs).length ≤ 4300 := by simp
  have written : ∀ e ∈ [Expr.atom "+"] ++ [.atom "x"], e.Writable := by decide
  obtain ⟨-, alone, among⟩ := printed_integers_read_back.1 (-45) fits
  obtain ⟨t, t', displayed, same⟩ := printed_integers_read_back.2 (.int (-45)) .nil (.int fits) .nil
  have positive : 0 < Session.start.depthLimit := by decide
  refine ⟨fits, written, alone.result ⟨0⟩ .start positive, (among _ _ written).form, t, t', ?_⟩
  exact ⟨(displayed .start positive).1, (displayed .start positive).2, fun eq => nomatch same.mp eq⟩

end ScopedLisp
