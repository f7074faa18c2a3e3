import ScopedLisp.Proofs.Evaluation.Correspondence
import ScopedLisp.Session

/-!
# ScopedLisp.Proofs.Evaluation.Depth

More levels than a run needs make no difference to it.  `Call.performBeyond` performs a call with some
levels, and leaves what lies deeper to another caller, whatever that one does.  A run that does not
end out of depth never comes to ask it (`Call.performBeyond_eq`): running out of depth ends the
whole run, and no form makes anything else of it.  With evaluation itself as the other caller
this says that the limit may be raised.
-/

namespace ScopedLisp

open Evaluation

/-! ## Everything for itself -/

/-- All code stands for itself. -/
def CodePairs.refl : CodePairs .refl where
  rel v w := v = w
  parts {v w} h := by
    subst h
    have same : ∀ vs : List Value, List.Forall₂ (fun v w => v = w) vs vs := fun vs =>
      List.forall₂_same.mpr fun _ _ => rfl
    cases v with
    | atom s => exact .atom rfl
    | list vs => exact .list (same vs)
    | array vs => exact .array (same vs)
    | _ => exact .data rfl rfl
  list h := congrArg Value.list (List.forall₂_eq_eq_eq ▸ h)

/-- Everything stands for itself. -/
def Correspondence.identity : Correspondence where
  World := Unit
  later _ _ := True
  heaps _ h h' := h = h'
  frame _ f f' := f = f'
  site _ f f' := f = f'
  value _ v v' := v = v'
  spelling := .refl
  code _ := .refl
  error e e' := e = e'

namespace Correspondence

theorem eq_of_forall₂ {α : Type} {as bs : List α} (h : List.Forall₂ (fun a b => a = b) as bs) :
    as = bs :=
  List.forall₂_eq_eq_eq ▸ h

theorem slots_eq {slots slots' : List (String × Value)}
    (h : List.Forall₂ (identity.SlotPair ()) slots slots') : slots = slots' :=
  eq_of_forall₂ (h.imp fun _ _ pair => Prod.ext pair.1 pair.2)

/-- Bodies that stand for one another, each for itself, are equal. -/
theorem body_eq {e e' : Value} (h : CodePairs.refl.Body e e') : e = e' := by
  cases h with
  | code h => exact h
  | sequence h => rw [eq_of_forall₂ h]

/-- Closures that stand for one another, names included, are equal. -/
theorem closure_eq {c d : Closure} (pair : identity.ClosurePair () c d)
    (name : Option.Rel (fun s t => s = t) c.name d.name) : c = d := by
  obtain ⟨formals, body, env, cname⟩ := c
  obtain ⟨formals', body', env', dname⟩ := d
  obtain ⟨hformals, hbody, henv⟩ := pair
  have names : cname = dname := by
    cases name with
    | none => rfl
    | some h => rw [h]
  cases eq_of_forall₂ hformals
  cases body_eq hbody
  cases henv
  rw [names]

/-- Every closure stands for itself. -/
theorem closurePair_refl (c : Closure) : identity.ClosurePair () c c where
  formals := List.forall₂_same.mpr fun _ _ => rfl
  body := .code rfl
  env := rfl

/-- Every request of a host stands for itself. -/
theorem requestPair_refl (request : HostRequest) : identity.RequestPair () request request := by
  cases request with
  | answer v => exact .answer rfl
  | fail e => exact .fail rfl
  | lookup name => exact .lookup rfl
  | define name v => exact .define rfl rfl
  | depth => exact .depth
  | apply p args => exact .apply rfl (List.forall₂_same.mpr fun _ _ => rfl)

/-- Every procedure stands for itself. -/
theorem procedurePair_refl : (p : Option Procedure) → identity.ProcedurePair () p p
  | none => .none
  | some (.closure c) => .closure (closurePair_refl c) fun _ _ => rfl
  | some (.primitive _ _) => .primitive
  | some (.host _ respond) =>
    .host (fun args args' h => by rw [eq_of_forall₂ h]; exact requestPair_refl _) fun _ _ h => h

/-- Errors of shape that quote equal code read alike. -/
theorem report_eq {e e' : ShapeError Value} (h : Shape.ErrorPair CodePairs.refl e e') (heap : Heap) :
    e.report heap = e'.report heap := by
  cases h with
  | same shape found =>
      refine ShapeError.report_congr shape ?_
      generalize e.found? = x at found ⊢
      generalize e'.found? = y at found ⊢
      cases found with
      | none => exact .none
      | some h => exact .some (by rw [h])
  | body text => rw [text]

theorem agree_refl {ε α : Type} (x : Except ε α) :
    Agree (fun e e' => e = e') (fun a b => a = b) x x :=
  .refl (fun _ => rfl) (fun _ => rfl) x

theorem procedureId_refl (v : Value) : (∃ id id', v = .procedure id ∧ v = .procedure id') ∨
    (∀ id, v ≠ .procedure id) ∧ ∀ id, v ≠ .procedure id := by
  cases v with
  | procedure id => exact Or.inl ⟨id, id, rfl, rfl⟩
  | _ => exact Or.inr ⟨nofun, nofun⟩

/-- Every heap beside itself is a correspondence: what is done to equal heaps leaves equal heaps. -/
theorem identity_lawful : identity.Lawful where
  later_refl _ := trivial
  later_trans _ _ := trivial
  frame_later _ h := h
  value_later _ h := h
  code_later _ h := h
  site_of_frame h := h
  scalar _ := rfl
  unassigned := rfl
  isTrue h := congrArg _ h
  procedureId {_ v _} h := h ▸ procedureId_refl v
  newFrame heaps hf slots := by
    cases heaps
    cases hf
    cases slots_eq slots
    exact ⟨(), trivial, rfl, rfl⟩
  newClosure heaps pair name := by
    cases heaps
    cases closure_eq pair name
    exact ⟨(), trivial, rfl, rfl⟩
  nameClosure heaps hv text := by
    cases heaps
    cases hv
    cases text
    rfl
  write heaps hf text hv := by
    cases heaps
    cases hf
    cases text
    cases hv
    rfl
  lookup heaps hf text := by
    cases heaps
    cases hf
    cases text
    exact agree_refl _
  depth heaps hf := by
    cases heaps
    cases hf
    rfl
  isFresh heaps hf hv := by
    cases heaps
    cases hf
    cases hv
    rfl
  procedure heaps hv := by
    cases heaps
    cases hv
    exact procedurePair_refl _
  primitive p args args' heaps h := by
    cases heaps
    cases eq_of_forall₂ h
    exact agree_refl _
  shape heaps h := by
    cases heaps
    exact report_eq h _
  notEvaluable heaps he := by
    cases heaps
    cases he
    exact agree_refl _
  notApplicable heaps hv := by
    cases heaps
    cases hv
    exact agree_refl _

end Correspondence

/-! ## What lies beyond the limit -/

namespace Call

/-- Perform a call with so many levels, and by `beyond` what lies deeper.  The `extra` levels are those
that writing code may take beyond the limit. -/
def performBeyond (beyond : Caller) (extra : Nat) : (levels : Nat) → Call → Evaluation Value
  | 0 => beyond
  | levels + 1 => step (levels + extra) (performBeyond beyond extra levels)

/-- To go on with evaluation itself is to have more levels. -/
theorem performBeyond_perform (extra levels : Nat) :
    performBeyond (perform extra) extra levels = perform (levels + extra) := by
  induction levels with
  | zero => rw [Nat.zero_add, performBeyond]
  | succ levels ih => rw [performBeyond, ih, Nat.succ_add, perform]

/-- A run that does not end out of depth does not depend on what lies beyond its levels. -/
theorem performBeyond_eq {levels : Nat} {call : Call} {heap : Heap}
    (within : ∀ after, perform levels call heap ≠ .error .outOfDepth after) (beyond : Caller)
    (extra : Nat) : performBeyond beyond extra levels call heap = perform levels call heap := by
  have follows : Correspondence.identity.Follows True (perform levels)
      (performBeyond beyond extra levels) := by
    clear within
    induction levels with
    | zero => exact fun _ _ _ _ _ _ _ => .early trivial
    | succ levels ih =>
        exact ih.step Correspondence.identity_lawful (Nat.le_add_right _ _) fun _ => trivial
  have self : Correspondence.identity.CallPair () call call := by
    clear within
    induction call with
    | eval code env => exact .eval (.code rfl) rfl
    | form keyword operands env => exact .form (List.forall₂_same.mpr fun _ _ => rfl) rfl
    | apply p args env => exact .apply rfl (List.forall₂_same.mpr fun _ _ => rfl) rfl
    | nested call ih => exact .nested ih
  have ends := follows () call call self heap heap rfl
  generalize performBeyond beyond extra levels call heap = r' at ends ⊢
  generalize perform levels call heap = r at ends within ⊢
  cases ends with
  | ok _ heaps hv =>
      cases heaps
      cases hv
      rfl
  | error _ heaps he =>
      cases heaps
      cases he
      rfl
  | outOfDepth _ _ => exact absurd rfl (within _)
  | early _ => exact absurd rfl (within _)

end Call

/-! ## How evaluation ends -/

namespace Step

variable {code value : Value} {env : FrameId} {session after : Session} {error : Error}

/-- Evaluation within a session has a value exactly if the call has it within the limit of the session. -/
theorem evaluate_eq_ok_iff : evaluate code env session = .ok value after ↔
    ∃ heap, Call.perform session.depthLimit (.eval code env) session.heap = .ok value heap ∧
      after = { session with heap := heap } := by
  simp only [evaluate]
  generalize Call.perform session.depthLimit (.eval code env) session.heap = result
  constructor
  · rcases result with ⟨v, heap⟩ | ⟨_ | _, heap⟩ <;> rintro ⟨⟩
    exact ⟨heap, rfl, rfl⟩
  · rintro ⟨heap, rfl, rfl⟩
    rfl

/-- Evaluation within a session fails exactly if the call does, and running out of depth becomes an error that
tells the limit. -/
theorem evaluate_eq_error_iff : evaluate code env session = .error error after ↔
    ∃ failure heap, Call.perform session.depthLimit (.eval code env) session.heap = .error failure heap ∧
      after = { session with heap := heap } ∧
      error = .evaluation (match failure with
        | .error e => e
        | .outOfDepth => .depthExceeded session.depthLimit) := by
  simp only [evaluate]
  generalize Call.perform session.depthLimit (.eval code env) session.heap = result
  constructor
  · rcases result with ⟨v, heap⟩ | ⟨e | _, heap⟩ <;> rintro ⟨⟩
    · exact ⟨.error e, heap, rfl, rfl, rfl⟩
    · exact ⟨.outOfDepth, heap, rfl, rfl, rfl⟩
  · rintro ⟨e | _, heap, rfl, rfl, rfl⟩ <;> rfl

end Step

/-! ## Raising the limit -/

/-- **Raising the limit**: evaluation that ends with a value under some limit, or with any error but that
of having exceeded it, ends with the same under every higher limit, and with the same heap.  And where
it makes a difference what calls beyond the limit would come to, evaluation ends with the error of having
exceeded the limit: no form catches it, or makes anything else of it. -/
theorem evaluate_of_limit_le (code : Value) (env : FrameId) (session : Session) {limit limit' : Nat}
    (le : limit ≤ limit') :
    let under (limit : Nat) := Step.evaluate code env { session with depthLimit := limit }
    (∀ value after, under limit = .ok value after →
      under limit' = .ok value { after with depthLimit := limit' }) ∧
    (∀ error after, under limit = .error error after → error ≠ .evaluation (.depthExceeded limit) →
      under limit' = .error error { after with depthLimit := limit' }) ∧
    ∀ beyond extra,
      Call.performBeyond beyond extra limit (.eval code env) session.heap ≠
        Call.perform limit (.eval code env) session.heap →
      ∃ after, under limit = .error (.evaluation (.depthExceeded limit)) after := by
  intro under
  obtain ⟨extra, rfl⟩ := Nat.exists_eq_add_of_le le
  have raised : ∀ {result}, Call.perform limit (.eval code env) session.heap = result →
      (∀ after, result ≠ .error .outOfDepth after) →
      Call.perform (limit + extra) (.eval code env) session.heap = result := by
    rintro _ rfl within
    rw [← Call.performBeyond_perform]
    exact Call.performBeyond_eq within _ extra
  refine ⟨?_, ?_, ?_⟩
  · intro value after h
    obtain ⟨heap, ran, rfl⟩ := Step.evaluate_eq_ok_iff.mp h
    exact Step.evaluate_eq_ok_iff.mpr ⟨heap, raised ran nofun, rfl⟩
  · intro error after h other
    obtain ⟨failure, heap, ran, rfl, rfl⟩ := Step.evaluate_eq_error_iff.mp h
    cases failure with
    | error e => exact Step.evaluate_eq_error_iff.mpr ⟨.error e, heap, raised ran nofun, rfl, rfl⟩
    | outOfDepth => exact absurd rfl other
  · intro beyond extra' differ
    obtain ⟨heap, ran⟩ : ∃ heap, Call.perform limit (.eval code env) session.heap =
        .error .outOfDepth heap := by
      by_contra never
      exact differ (Call.performBeyond_eq (not_exists.mp never) beyond extra')
    exact ⟨_, Step.evaluate_eq_error_iff.mpr ⟨.outOfDepth, heap, ran, rfl, rfl⟩⟩

/-- `((lambda (x) x) 7)` takes four levels: with as many or more it has the value 7.  With three it
would come to the evaluation of the body, whatever that came to, and the limit is exceeded. -/
theorem evaluate_of_limit_le_application :
    let code : Value := .list [.list [.atom "lambda", .list [.atom "x"], .atom "x"], .atom "7"]
    let session := { Session.start with heap := ⟨#[⟨none, []⟩], #[]⟩ }
    let under (limit : Nat) := Step.evaluate code 0 { session with depthLimit := limit }
    4 ≤ 1000 ∧
    (∃ after, under 4 = .ok (.int 7) after ∧
      under 1000 = .ok (.int 7) { after with depthLimit := 1000 }) ∧
    ∃ after, under 3 = .error (.evaluation (.depthExceeded 3)) after := by
  intro code session under
  refine ⟨by decide, ⟨_, rfl, ?_⟩, ?_⟩
  · have enough : 4 ≤ 1000 := by decide
    exact (evaluate_of_limit_le code 0 session enough).1 _ _ rfl
  · refine (evaluate_of_limit_le code 0 session (Nat.le_refl 3)).2.2 (fun _ => pure .nil) 0 ?_
    intro same
    cases same

end ScopedLisp
