import ScopedLisp.Proofs.Evaluation.Depth
import ScopedLisp.Proofs.Heap.Respelling

/-!
# ScopedLisp.Proofs.Evaluation.Respelling

Names matter only by identity.  Under a change of names, respelled code does to a respelled heap what the
code does to the heap: no check and no form compares names with anything but each other and the words
that the change leaves alone, and none makes up a name but those words.

Texts do change: an error quotes the code or the procedure that it is about.  So errors correspond if they
are of the same class (`EvalError.SameKind`), and errors about a variable if its name is changed.
-/

namespace ScopedLisp

open Evaluation

/-! ## Errors -/

/-- Errors of the same class, which is not that of unbound variables. -/
def EvalError.SameKind (e e' : EvalError) : Prop :=
  e.kind = e'.kind ∧ e.kind ≠ "UnboundVariable"

/-- The same errors under other names: about a variable of another name, or of the same class. -/
inductive EvalError.Respelled (r : NameChange) : EvalError → EvalError → Prop where
  | unbound (name : String) : Respelled r (.unbound name) (.unbound (r.apply name))
  | unassigned (name : String) : Respelled r (.unassigned name) (.unassigned (r.apply name))
  | other {e e' : EvalError} : e.SameKind e' → Respelled r e e'

/-- Errors of one class that name no variable are of the same kind. -/
theorem EvalError.SameKind.of_kind {e e' : EvalError} (kind : String) (h : e.kind = kind)
    (h' : e'.kind = kind) (ne : kind ≠ "UnboundVariable") : e.SameKind e' :=
  ⟨h.trans h'.symm, h ▸ ne⟩

theorem EvalError.SameKind.unwritable : SameKind .unwritable .unwritable :=
  .of_kind "ValueError" rfl rfl (by decide)

/-- Whatever code an error of shape shows, it is of the same class. -/
theorem ShapeError.sameKind {e e' : ShapeError Value} (same : (e.map fun _ => ()) = (e'.map fun _ => ()))
    (s t : String) : (e.map fun _ => s).toEvalError.SameKind (e'.map fun _ => t).toEvalError := by
  rw [e.map_const, e'.map_const, same]
  generalize (e'.map fun _ => ()) = plain
  cases plain <;> refine ⟨rfl, ?_⟩ <;> simp [map, toEvalError, EvalError.kind, concernsBinding]

/-! ## Texts and answers in different heaps -/

variable {heap heap' : Heap}

/-- Texts are written alike, or not at all, for values that are writable alike. -/
theorem Value.agree_guarded {v w : Value} (same : v.isUnwritable = w.isUnwritable) (s t : String) :
    Agree EvalError.SameKind (fun _ _ => True) (v.guarded s) (w.guarded t) := by
  rw [guarded, guarded, same]
  split
  · exact .error .unwritable
  · exact .ok trivial

/-- Of respelled code, what can be described still can, and what cannot is refused in the same way. -/
theorem Value.agree_describe (r : NameChange) (v : Value) :
    Agree EvalError.SameKind (fun _ _ => True) (v.describe heap) ((v.respell r).describe heap') := by
  have same := v.isOk_toExpr_respell r
  rw [describe, describe]
  generalize v.toExpr = x at same ⊢
  generalize (v.respell r).toExpr = y at same ⊢
  cases x <;> cases y <;> cases same
  · exact agree_guarded (v.isUnwritable_respell r).symm _ _
  · exact .ok trivial

/-- What quotes a value that is of the wrong type quotes it in every heap. -/
theorem Value.agree_failure {α β : Type} {value : α → β → Prop} {v w : Value}
    (same : v.isUnwritable = w.isUnwritable) (s t : String) (error : String → EvalError)
    (kind : ∀ shown, (error shown).kind = "LambicTypeError") :
    Agree EvalError.SameKind value ((v.guarded s).bind fun shown => .error (error shown))
      ((w.guarded t).bind fun shown => .error (error shown)) :=
  (agree_guarded same s t).bind fun shown shown' _ =>
    .error (.of_kind _ (kind shown) (kind shown') (by decide))

namespace Primitive

variable (p : Primitive)

/-- What no heap is asked for is the same. -/
theorem agree_self {α : Type} {x : Except EvalError α}
    (h : ∀ e, x = .error e → e.kind ≠ "UnboundVariable") :
    Agree EvalError.SameKind (fun a b => a = b) x x := by
  cases x with
  | ok a => exact .ok rfl
  | error e => exact .error ⟨rfl, h e rfl⟩

/-- The arguments of arithmetic are numbers in any heap or in none. -/
theorem agree_numbers (args : List Value) :
    Agree EvalError.SameKind (fun a b => a = b) (numbers heap p args) (numbers heap' p args) := by
  induction args with
  | nil => exact .ok rfl
  | cons arg args ih =>
      unfold numbers
      split
      · contradiction
      next n vs eq =>
        cases eq
        exact ih.map fun _ _ => congrArg (n :: ·)
      · exact Value.agree_failure rfl _ _ _ fun _ => rfl

/-- The arguments of integer division are integers in any heap or in none. -/
theorem agree_integers (args : List Value) :
    Agree EvalError.SameKind (fun a b => a = b) (integers heap p args) (integers heap' p args) := by
  induction args with
  | nil => exact .ok rfl
  | cons arg args ih =>
      unfold integers
      split
      · contradiction
      next i vs eq =>
        cases eq
        exact ih.map fun _ _ => congrArg (i :: ·)
      · exact Value.agree_failure rfl _ _ _ fun _ => rfl

/-- A wrong number of arguments is an error of arity. -/
theorem kind_checkCount {name : String} {arity : Arity} {count : Nat} {e : EvalError}
    (h : checkCount name arity count = .error e) : e.kind = "ArityError" := by
  unfold checkCount at h
  split at h <;> cases h
  rfl

/-- The division of integers fails by a zero divisor only. -/
theorem kind_divideIntegers {a b : Int} {e : EvalError} (h : p.divideIntegers a b = .error e) :
    e.kind = "DivisionByZero" := by
  unfold divideIntegers at h
  split at h
  · cases h
    rfl
  · split at h <;> cases h

/-- Arithmetic does not fail for want of a variable. -/
theorem kind_arithmeticError (failure : Number.Failure) :
    (p.arithmeticError failure).kind ≠ "UnboundVariable" := by
  cases failure <;> simp [arithmeticError, EvalError.kind]

/-- Arithmetic on given numbers does not depend on the heap. -/
theorem agree_onNumbers (xs : List Number) :
    Agree EvalError.SameKind (fun a b => a = b) ((p.onNumbers xs).mapError p.arithmeticError)
      ((p.onNumbers xs).mapError p.arithmeticError) := by
  refine agree_self fun e h => ?_
  cases hx : p.onNumbers xs with
  | ok v => rw [hx] at h; cases h
  | error failure =>
      rw [hx] at h
      cases h
      exact kind_arithmeticError p failure

/-- A primitive answers alike in all heaps, but for what its errors quote. -/
theorem agree_apply (args : List Value) :
    Agree EvalError.SameKind (fun a b => a = b) (p.apply heap args) (p.apply heap' args) := by
  have counted : Agree EvalError.SameKind (fun a b => a = b) (checkCount p.name p.arity args.length)
      (checkCount p.name p.arity args.length) :=
    agree_self fun e h => by simp [kind_checkCount h]
  have onNumbers : Agree EvalError.SameKind (fun a b => a = b)
      (do (p.onNumbers (← numbers heap p args)).mapError p.arithmeticError)
      (do (p.onNumbers (← numbers heap' p args)).mapError p.arithmeticError) :=
    (agree_numbers p args).bind fun xs ys eq => eq ▸ agree_onNumbers p xs
  refine counted.bind fun _ _ _ => ?_
  cases p with
  | quotient | remainder | modulo =>
      refine (agree_integers _ args).bind fun is js eq => ?_
      cases eq
      split
      · exact agree_self fun e h => by simp [kind_divideIntegers _ h]
      · exact .ok rfl
  | not | same | isNumber | isBoolean | isSymbol | isProcedure => exact .ok rfl
  | _ => exact onNumbers

end Primitive

/-! ## The correspondence -/

/-- Respelled code stands for the code. -/
def CodePairs.respelled (r : NameChange) : CodePairs r.respelling where
  rel v w := w = v.respell r
  parts {v w} h := by
    subst h
    have items : ∀ vs : List Value,
        List.Forall₂ (fun v w => w = v.respell r) vs (Value.respellItems r vs) := by
      intro vs
      rw [Value.respellItems_eq_map, List.forall₂_map_right_iff]
      exact List.forall₂_same.mpr fun _ _ => rfl
    cases v with
    | atom s => exact .atom rfl
    | list vs => exact .list (items vs)
    | array vs => exact .array (items vs)
    | _ => exact .data rfl rfl
  list h := by
    rw [map_eq_of_forall₂ h, ← Value.respellItems_eq_map]
    rfl

/-- Respelled code stands for code, and the respelled heap for the heap; values and frames stand for themselves. -/
def Correspondence.respelled (r : NameChange) : Correspondence where
  World := Unit
  later _ _ := True
  heaps _ h h' := h.Hostless ∧ h' = h.respell r
  frame _ f f' := f = f'
  site _ f f' := f = f'
  value _ v v' := v = v'
  spelling := r.respelling
  code _ := .respelled r
  error := EvalError.Respelled r

namespace Correspondence

variable {r : NameChange}

/-- What stands for a body is its respelling. -/
theorem respell_of_body {e e' : Value} (h : (CodePairs.respelled r).Body e e') : e' = e.respell r := by
  cases h with
  | code h => exact h
  | sequence h =>
      rw [map_eq_of_forall₂ h, ← Value.respellItems_eq_map, Value.respell, Value.respellItems, Value.respell,
        r.apply_begin]

/-- A closure that stands for another is its respelling. -/
theorem respell_of_closure {c d : Closure} (pair : (respelled r).ClosurePair () c d)
    (name : Option.Rel r.respelling.text c.name d.name) : d = c.respell r := by
  obtain ⟨formals, body, env, cname⟩ := c
  obtain ⟨formals', body', env', dname⟩ := d
  obtain ⟨hformals, hbody, henv⟩ := pair
  have names : dname = cname.map r.apply := by
    cases name with
    | none => rfl
    | some h => rw [h, Option.map_some]
  cases map_eq_of_forall₂ hformals
  cases respell_of_body hbody
  cases henv
  cases names
  rfl

/-- The respelling of a closure stands for it. -/
theorem closurePair_respell (c : Closure) : (respelled r).ClosurePair () c (c.respell r) where
  formals := List.forall₂_map_right_iff.mpr (List.forall₂_same.mpr fun _ _ => rfl)
  body := .code rfl
  env := rfl

/-- Errors of shape that stand for one another are of the same class. -/
theorem sameKind_report {h h' : Heap} {e e' : ShapeError Value}
    (pair : Shape.ErrorPair (CodePairs.respelled r) e e') : (e.report h).SameKind (e'.report h') := by
  cases pair with
  | same shape found =>
      rw [ShapeError.report, ShapeError.report]
      generalize e.found? = x at found ⊢
      generalize e'.found? = y at found ⊢
      cases found with
      | none => exact ShapeError.sameKind shape "" ""
      | @some v w hv =>
          have described : Agree _ _ (v.describe h) (w.describe h') := hv ▸ v.agree_describe r
          dsimp only
          generalize v.describe h = x at described ⊢
          generalize w.describe h' = y at described ⊢
          cases described with
          | ok _ => exact ShapeError.sameKind shape _ _
          | error same => exact same
  | body _ => exact .of_kind "MalformedForm" rfl rfl (by decide)

/-- Everything that evaluation does or finds out comes out respelled. -/
theorem respelled_lawful (r : NameChange) : (respelled r).Lawful where
  later_refl _ := trivial
  later_trans _ _ := trivial
  frame_later _ h := h
  value_later _ h := h
  code_later _ h := h
  site_of_frame h := h
  scalar _ := rfl
  unassigned := rfl
  isTrue h := congrArg _ h
  procedureId {_ v _} h := h ▸ procedureId_refl v
  newFrame {_ h h' f f' slots slots'} heaps hf hslots := by
    obtain ⟨hostless, rfl⟩ := heaps
    cases hf
    have eq : slots' = slots.map fun slot => (r.apply slot.1, slot.2) :=
      map_eq_of_forall₂ (hslots.imp fun _ _ pair => Prod.ext pair.1 pair.2.symm)
    refine ⟨(), trivial, ⟨hostless, ?_⟩, Array.size_map.symm⟩
    rw [h.respell_newFrame r, eq]
  newClosure {_ h h' c d} heaps pair given := by
    obtain ⟨hostless, rfl⟩ := heaps
    refine ⟨(), trivial, ⟨hostless.newClosure c, ?_⟩, congrArg _ Array.size_map.symm⟩
    rw [h.respell_newClosure r, respell_of_closure pair given]
  nameClosure {_ h _ id id' s t} heaps hid text := by
    obtain ⟨hostless, rfl⟩ := heaps
    cases hid
    cases text
    exact ⟨hostless.nameClosure id s, (h.respell_nameClosure r id s).symm⟩
  write {_ h _ f _ s _ v _} heaps hf text hv := by
    obtain ⟨hostless, rfl⟩ := heaps
    cases hf
    cases text
    cases hv
    exact ⟨hostless, (h.respell_write r f s v).symm⟩
  lookup {_ h _ f _ s _} heaps hf text := by
    obtain ⟨-, rfl⟩ := heaps
    cases hf
    cases text
    simp only [Heap.lookup, h.find?_respell r, h.get?_respell r]
    cases (h.find? f s).bind (h.get? · s) with
    | none => exact .error (.unbound s)
    | some v =>
        cases v with
        | unassigned => exact .error (.unassigned s)
        | _ => exact .ok rfl
  depth {_ h _ f _} heaps hf := by
    obtain ⟨-, rfl⟩ := heaps
    cases hf
    rw [Heap.depth_eq_chain_length, Heap.depth_eq_chain_length, h.chain_respell r f]
  isFresh {_ h _ f _ v _} heaps hf hv := by
    obtain ⟨-, rfl⟩ := heaps
    cases hf
    cases hv
    exact (Form.isFresh_respell r h f v).symm
  procedure {_ h h' v v'} heaps hv := by
    obtain ⟨hostless, rfl⟩ := heaps
    cases hv
    rw [h.procedure?_respell r]
    cases found : h.procedure? v with
    | none => exact .none
    | some p =>
        cases p with
        | closure c =>
            refine .closure (closurePair_respell c) fun _ _ => .other ?_
            exact .of_kind "ArityError" rfl rfl (by decide)
        | primitive => exact .primitive
        | host =>
            obtain ⟨id, rfl, there⟩ := Heap.procedure?_eq_some_iff.mp found
            exact absurd (Array.mem_of_getElem? there) (hostless _ _)
  primitive p args args' heaps hargs := by
    cases eq_of_forall₂ hargs
    exact (p.agree_apply args).mono_error fun _ _ h => .other h
  shape _ pair := .other (sameKind_report pair)
  notEvaluable {_ h h' e e'} heaps he := by
    cases he
    exact (Value.agree_failure (e.isUnwritable_respell r).symm _ _ _ fun _ => rfl).mono_error
      fun _ _ h => .other h
  notApplicable {_ h h' v v'} heaps hv := by
    cases hv
    exact (Value.agree_failure rfl _ _ _ fun _ => rfl).mono_error fun _ _ h => .other h

end Correspondence

/-! ## Names matter only by identity -/

/-- **Names matter only by identity**: under a change of names, respelled code, evaluated in any frame of the
respelled heap, ends with the same value as the code in the heap, with an error of the same class, or out of
depth as well.  Where the error is about a variable that is unbound or not assigned, it is about the
variable of the other name.  The heap that is left is the respelled one in each case. -/
theorem respelled_eval (heap : Heap) (hostless : heap.Hostless) (r : NameChange) (code : Value)
    (env : FrameId) (levels : Nat) :
    EndTogether (fun after after' => after' = after.respell r) (· = ·) (EvalError.Respelled r)
      (Call.perform levels (.eval code env) heap)
      (Call.perform levels (.eval (code.respell r) env) (heap.respell r)) := by
  have lawful := Correspondence.respelled_lawful r
  have ends := Correspondence.perform lawful levels () (.eval code env) (.eval (code.respell r) env)
    (.eval (.code rfl) rfl) _ _ ⟨hostless, rfl⟩
  exact ends.together (fun _ _ _ heaps => heaps.2) fun _ _ _ h => h

/-- With `x` and `y` in each other's place: `(x y)` fails where `x` is bound and `y` is not, and `(y x)`
fails where `y` is bound and `x` is not. -/
theorem respelled_eval_swap :
    let r : NameChange := .swap "x" "y" (by decide) (by decide)
    let heap : Heap := ⟨#[⟨none, [("x", .int 1)]⟩], #[]⟩
    let code : Value := .list [.atom "x", .atom "y"]
    heap.Hostless ∧
    EndTogether (fun after after' => after' = after.respell r) (· = ·) (EvalError.Respelled r)
      (Call.perform 3 (.eval code 0) heap)
      (Call.perform 3 (.eval (code.respell r) 0) (heap.respell r)) ∧
    Call.perform 3 (.eval code 0) heap = .error (.error (.unbound "y")) heap ∧
    Call.perform 3 (.eval (code.respell r) 0) (heap.respell r) =
      .error (.error (.unbound "x")) (heap.respell r) := by
  intro r heap code
  have hostless : heap.Hostless := fun name respond mem => by simp [heap] at mem
  refine ⟨hostless, respelled_eval heap hostless r code 0 3, rfl, ?_⟩
  have x : r.apply "x" = "y" := Equiv.swap_apply_left ..
  have y : r.apply "y" = "x" := Equiv.swap_apply_right ..
  have code' : code.respell r = .list [.atom "y", .atom "x"] := by
    simp only [code, Value.respell, Value.respellItems, x, y]
  have heap' : heap.respell r = ⟨#[⟨none, [("y", .int 1)]⟩], #[]⟩ := by
    simp [heap, Heap.respell, Frame.respell, x]
  rw [code', heap']
  rfl

end ScopedLisp
