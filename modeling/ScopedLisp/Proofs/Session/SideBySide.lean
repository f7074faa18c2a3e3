import ScopedLisp.Proofs.Evaluation.Scoping
import ScopedLisp.Proofs.Session.Reached

/-!
# ScopedLisp.Proofs.Session.SideBySide

Two sessions side by side.  Their heaps are alike, and both allow as many nested calls and log as much;
their logs may differ.  A source text, evaluated in paired root frames, then ends alike in both
(`Pairing.matches_eval`).
-/

namespace ScopedLisp

/-- How two sessions began: with heaps that are alike, and with the limit and the log level that stay
theirs. -/
structure Pairing where
  start : Renaming
  base : Heap
  base' : Heap
  limit : Nat
  threshold : LogLevel

namespace Pairing

/-- The two sessions are in the midst of their work. -/
structure Joins (p : Pairing) (ρ : Renaming) (s s' : Session) : Prop where
  heap : p.start.Since p.base p.base' ρ s.heap s'.heap
  limit : s.depthLimit = p.limit
  limit' : s'.depthLimit = p.limit
  threshold : s.threshold = p.threshold
  threshold' : s'.threshold = p.threshold

/-- Two steps end alike: with values that are paired as wanted, or with the same error. -/
inductive Ends (p : Pairing) {α β : Type} (ρ : Renaming) (value : Renaming → α → β → Prop) :
    EStateM.Result Error Session α → EStateM.Result Error Session β → Prop where
  | ok {σ : Renaming} {a : α} {b : β} {s s' : Session} : ρ.Within σ → p.Joins σ s s' →
      value σ a b → Ends p ρ value (.ok a s) (.ok b s')
  | error {σ : Renaming} {e : Error} {s s' : Session} : ρ.Within σ → p.Joins σ s s' →
      Ends p ρ value (.error e s) (.error e s')

/-- From sessions side by side the two steps end alike. -/
def Matches (p : Pairing) {α β : Type} (ρ : Renaming) (value : Renaming → α → β → Prop) (x : Step α)
    (y : Step β) : Prop :=
  ∀ s s', p.Joins ρ s s' → p.Ends ρ value (x s) (y s')

variable {p : Pairing} {ρ σ : Renaming} {s s' : Session} {α β γ δ : Type}
  {value : Renaming → α → β → Prop} {value' : Renaming → γ → δ → Prop}

/-! ## Steps in a row -/

/-- Steps that end alike from a later renaming on end alike from the one it grew out of. -/
theorem Ends.since {r : EStateM.Result Error Session α} {r' : EStateM.Result Error Session β}
    (within : ρ.Within σ) (ends : p.Ends σ value r r') : p.Ends ρ value r r' := by
  cases ends with
  | ok later joins h => exact .ok (within.trans later) joins h
  | error later joins => exact .error (within.trans later) joins

theorem Matches.pure {a : α} {b : β} (h : value ρ a b) : p.Matches ρ value (pure a) (pure b) :=
  fun _ _ joins => .ok (.refl ρ) joins h

theorem Matches.throw (e : Error) : p.Matches ρ value (throw e) (throw e) :=
  fun _ _ joins => .error (.refl ρ) joins

/-- Steps in a row end alike, if the first ones do and the others do after them. -/
theorem Matches.bind {x : Step α} {y : Step β} {next : α → Step γ} {next' : β → Step δ}
    (h : p.Matches ρ value x y)
    (hnext : ∀ σ a b, ρ.Within σ → value σ a b → p.Matches σ value' (next a) (next' b)) :
    p.Matches ρ value' (x >>= next) (y >>= next') := by
  intro s s' joins
  have ends := h s s' joins
  simp only [Bind.bind, EStateM.bind]
  generalize x s = r at ends ⊢
  generalize y s' = r' at ends ⊢
  cases ends with
  | ok within joins h => exact (hnext _ _ _ within h _ _ joins).since within
  | error within joins => exact .error within joins

/-- Steps whose failures are handled end alike, if they do so with every handling. -/
theorem Matches.tryCatch {x : Step α} {y : Step β} {handle : Error → Step α}
    {handle' : Error → Step β} (h : p.Matches ρ value x y)
    (hhandle : ∀ σ e, ρ.Within σ → p.Matches σ value (handle e) (handle' e)) :
    p.Matches ρ value (tryCatch x handle) (tryCatch y handle') := by
  intro s s' joins
  have ends := h s s' joins
  cases hx : x s with
  | ok a t =>
      rw [tryCatch_of_ok hx]
      rw [hx] at ends
      cases hy : y s' with
      | ok b t' =>
          rw [tryCatch_of_ok hy]
          rwa [hy] at ends
      | error e t' =>
          rw [hy] at ends
          cases ends
  | error e t =>
      rw [tryCatch_of_error hx]
      rw [hx] at ends
      cases hy : y s' with
      | ok b t' =>
          rw [hy] at ends
          cases ends
      | error e' t' =>
          rw [tryCatch_of_error hy]
          rw [hy] at ends
          cases ends with
          | error within joins => exact (hhandle _ _ within _ _ joins).since within

/-! ## Records -/

/-- What the logs of two sessions hold does not part them. -/
theorem Joins.withLog (joins : p.Joins ρ s s') (log log' : Array String) :
    p.Joins ρ { s with log := log } { s' with log := log' } :=
  ⟨joins.heap, joins.limit, joins.limit', joins.threshold, joins.threshold'⟩

/-- A text that is the same in both heaps is written alike. -/
theorem matches_write (levels : Nat) {text : Heap → Except EvalError String}
    (same : ∀ s s', p.Joins ρ s s' → text s.heap = text s'.heap) :
    p.Matches ρ (fun _ a b => a = b) (Step.write levels text) (Step.write levels text) := by
  intro s s' joins
  simp only [Step.write, joins.limit, joins.limit', Step.query, same s s' joins]
  split
  · cases text s'.heap with
    | ok line => exact .ok (.refl ρ) joins rfl
    | error error => exact .error (.refl ρ) joins
  · exact .error (.refl ρ) joins

/-- To log something of which both heaps make the same words. -/
theorem matches_record (r : LogRecord)
    (words : ∀ σ s s', p.Joins σ s s' → r.line? s.heap = r.line? s'.heap) :
    p.Matches ρ (fun _ _ _ => True) (Step.record r) (Step.record r) := by
  have threshold : p.Matches ρ (fun _ a b => a.threshold = b.threshold) (get : Step Session) get :=
    fun s s' joins => .ok (.refl ρ) joins (joins.threshold.trans joins.threshold'.symm)
  refine threshold.bind fun σ s s' _ same => ?_
  rw [same]
  split
  · refine (matches_write r.levels (words σ)).bind fun σ line line' _ same => ?_
    rw [same]
    exact fun s s' joins => .ok (.refl σ) (joins.withLog _ _) trivial
  · exact Matches.pure trivial

/-! ## Forms and source texts -/

/-- Sessions stay side by side, if their heaps have come from one another step by step. -/
theorem Joins.withHeap (joins : p.Joins ρ s s') {heap heap' : Heap}
    (since : p.start.Since p.base p.base' σ heap heap') :
    p.Joins σ { s with heap := heap, depthLimit := p.limit }
      { s' with heap := heap', depthLimit := p.limit } :=
  ⟨since, rfl, rfl, joins.threshold, joins.threshold'⟩

/-- An expression is like itself. -/
theorem alike_expr (ρ : Renaming) (e : Expr) : e.toValue.Alike ρ e.toValue :=
  e.toValue.alike_self fun id holds => absurd holds (e.written_toValue.not_holds id)

/-- An expression is evaluated alike in frames that stand for one another. -/
theorem matches_evaluate {f f' : FrameId} (hf : ρ.frame f f') (e : Expr) :
    p.Matches ρ Value.Alike (Step.evaluate e.toValue f) (Step.evaluate e.toValue f') := by
  intro s s' joins
  have lawful := Correspondence.alike_lawful p.start p.base p.base'
  have ends := Correspondence.perform lawful p.limit ρ _ _ (.eval (.code (alike_expr ρ e)) hf) _ _
    joins.heap
  simp only [Step.evaluate, joins.limit, joins.limit']
  generalize Call.perform p.limit (.eval e.toValue f) s.heap = r at ends ⊢
  generalize Call.perform p.limit (.eval e.toValue f') s'.heap = r' at ends ⊢
  cases ends with
  | ok within since hv => exact .ok within (joins.withHeap since) hv
  | error within since he =>
      cases he
      exact .error within (joins.withHeap since)
  | outOfDepth within since => exact .error within (joins.withHeap since)
  | early h => exact h.elim

variable {interpreter interpreter' : Interpreter} (root : ρ.frame interpreter.root interpreter'.root)

include root

/-- A form is evaluated, and reported, alike by both interpreters. -/
theorem matches_evalForm (e : Expr) :
    p.Matches ρ Value.Alike (interpreter.evalForm e.toValue) (interpreter'.evalForm e.toValue) := by
  have words : ∀ σ s s', p.Joins σ s s' → (LogRecord.evaluating e.toValue).line? s.heap =
      (LogRecord.evaluating e.toValue).line? s'.heap := by
    intro σ s s' joins
    simp only [LogRecord.line?, LogRecord.message?, joins.heap.alike.sameTexts.inspect? (alike_expr σ e)]
  refine (matches_record _ words).bind fun σ _ _ within _ => ?_
  refine (matches_evaluate (within.frame root) e).tryCatch fun τ error _ => ?_
  split
  · exact (matches_record _ fun _ _ _ _ => rfl).bind fun _ _ _ _ _ => Matches.throw error
  · exact Matches.throw error

/-- The forms of a text are evaluated alike by both interpreters. -/
theorem matches_evalStream (stream : TokenStream) {last last' : Value} (hlast : last.Alike ρ last') :
    p.Matches ρ Value.Alike (interpreter.evalStream stream last)
      (interpreter'.evalStream stream last') := by
  induction stream, last using Interpreter.evalStream.induct generalizing ρ last' with
  | case1 stream last error rest h =>
      rw [Interpreter.evalStream_of_error h, Interpreter.evalStream_of_error h]
      exact Matches.throw _
  | case2 stream last rest h =>
      rw [Interpreter.evalStream_of_end h, Interpreter.evalStream_of_end h]
      exact Matches.pure hlast
  | case3 stream last e rest h ih =>
      rw [Interpreter.evalStream_of_form h, Interpreter.evalStream_of_form h]
      refine (matches_evalForm root e).bind fun σ v w within hv => ?_
      exact ih v (within.frame root) hv

/-- A source text, evaluated in paired root frames, ends alike. -/
theorem matches_eval (source : String) :
    p.Matches ρ Value.Alike (interpreter.eval source) (interpreter'.eval source) :=
  matches_evalStream root (lex source) (.flat rfl nofun)

end Pairing

end ScopedLisp
