import ScopedLisp.Proofs.Evaluation.Insertion

/-!
# ScopedLisp.Proofs.Evaluation.AppliedLambda

`let` is a `lambda` that is applied at once.  Both evaluate some values in order, in the frame at hand, and
then a body in one new frame that holds the values under their names (`Form.bindTogether`).  The
`lambda` leaves a closure besides, which is made first and which nobody can ever get hold of: so it is
there during the whole run, and makes no difference to it.
-/

namespace ScopedLisp

open Evaluation

/-! ## Values in order, then a body -/

/-- Evaluate values in order, then a body in one new frame that holds them under some names. -/
def Form.bindTogether (call : Caller) (names : List String) (values body : List Value) (env : FrameId) :
    Evaluation Value := do
  let vs ← evalEach (fun e => call (.eval e env)) values
  let frame ← newFrame env (names.zip vs)
  evalLast (fun e => call (.eval e frame)) body

namespace Call

variable {names : List String} {values body : List Value}

theorem tends_evalEach (values : List Value) (env : FrameId) :
    Tends (fun levels => evalEach (fun e => perform levels (.eval e env)) values)
      (evalEach (fun e => unbounded (.eval e env)) values) :=
  .evalEach (fun _ => tends _) values

theorem tends_bindTogether (names : List String) (values body : List Value) (env : FrameId) :
    Tends (fun levels => Form.bindTogether (perform levels) names values body env)
      (Form.bindTogether unbounded names values body env) := by
  refine (tends_evalEach values env).bind fun vs => (Tends.newFrame _ _).bind fun frame => ?_
  exact .evalLast (fun _ => tends _) body

/-- A `let` binds its names together. -/
theorem unbounded_letCode (are_names : ∀ name ∈ names, Literal.ofText name = .name) (distinct : names.Nodup)
    (all : names.length = values.length) (nonempty : body ≠ []) (env : FrameId) :
    unbounded (.eval (Form.letCode .letForm (names.zip values) body) env) =
      Form.bindTogether unbounded names values body env := by
  have firsts : (names.zip values).map (·.1) = names := List.map_fst_zip (Nat.le_of_eq all)
  have seconds : (names.zip values).map (·.2) = values := List.map_snd_zip (Nat.le_of_eq all.symm)
  have shape : Shape.letParts "let" false (.list ((names.zip values).map Form.bindingCode) :: body) =
      .ok (names.zip values, Form.sequence body) :=
    Shape.letParts_code (fun _ mem => are_names _ (List.of_mem_zip mem).1) (Or.inr (firsts.symm ▸ distinct))
      nonempty
  rw [Form.letCode, unbounded_code, unbounded_let, shape]
  simp only [checked, pure_bind, firsts, seconds, unbounded_sequence nonempty, Form.bindTogether]

/-- A row is evaluated in two parts. -/
theorem evalEach_append (eval : Value → Evaluation Value) (es es' : List Value) :
    evalEach eval (es ++ es') = (do
      let vs ← evalEach eval es
      let vs' ← evalEach eval es'
      return vs ++ vs') := by
  induction es with
  | nil => simp [evalEach]
  | cons e es ih => simp [evalEach, ih]

/-- There is one value for each expression. -/
theorem length_of_evalEach {eval : Value → Evaluation Value} {heap after : Heap} {vs : List Value}
    (ran : evalEach eval values heap = .ok vs after) : vs.length = values.length := by
  induction values generalizing heap vs with
  | nil =>
      cases ran
      rfl
  | cons e es ih =>
      simp only [evalEach, Bind.bind, EStateM.bind] at ran
      split at ran
      · split at ran
        next rest =>
          cases ran
          exact congrArg Nat.succ (ih rest)
        · cases ran
      · cases ran

/-- To apply a closure to as many values as it has parameters is to evaluate its body in a new frame. -/
theorem unbounded_apply_closure {heap : Heap} {id : ProcedureId} {c : Closure} {args : List Value}
    (there : heap.procedures[id]? = some (.closure c)) (distinct : c.formals.Nodup)
    (all : args.length = c.formals.length) (env : FrameId) :
    unbounded (.apply (.procedure id) args env) heap =
      (newFrame c.env (c.formals.zip args) >>= fun frame => unbounded (.eval c.body frame)) heap := by
  have slots : Frame.setAll (c.formals.zip args) [] = c.formals.zip args :=
    Frame.setAll_of_new args [] distinct
  rw [unbounded_apply]
  refine (bind_of_ok rfl _).trans ?_
  simp only [Heap.procedure?, there, enter, if_pos all, slots, unbounded_nested]

end Call

namespace Correspondence

variable {corr : Correspondence} {early : Prop} {w : corr.World} {call call' : Caller}
  {names names' : List String} {values values' body body' : List Value} {f f' : FrameId}

/-- Names that stand for one another are bound together alike. -/
theorem matches_bindTogether (lawful : corr.Lawful) (follows : corr.Follows early call call')
    (hnames : List.Forall₂ corr.spelling.text names names')
    (hvalues : List.Forall₂ (corr.code w).rel values values')
    (hbody : List.Forall₂ (corr.code w).rel body body') (hf : corr.frame w f f') :
    corr.Matches early w corr.value (Form.bindTogether call names values body f)
      (Form.bindTogether call' names' values' body' f') := by
  have evaluated := matches_evalEach lawful (matches_eval_later lawful follows hf) hvalues
  refine evaluated.bind lawful fun u vs vs' later hvs => ?_
  have hf := lawful.frame_later later hf
  refine (Matches.newFrame lawful hf (slots_zip hnames hvs)).bind lawful fun u' g g' later' hg => ?_
  have later := lawful.later_trans later later'
  exact matches_evalLast lawful (matches_eval_later lawful follows hg) (codes_later lawful later hbody)

end Correspondence

/-! ## Results with one procedure more -/

/-- A result with one procedure more in the heap. -/
def Evaluation.withProcedure (p : ProcedureId) (q : Procedure) :
    EStateM.Result Failure Heap Value → EStateM.Result Failure Heap Value
  | .ok v after => .ok (v.shift p) (after.insertProcedure p q)
  | .error failure after => .error failure (after.insertProcedure p q)

/-- Neither the value of a result holds a procedure, nor does anything else in the heap lead to it. -/
def Evaluation.Abandons (p : ProcedureId) : EStateM.Result Failure Heap Value → Prop
  | .ok v after => ¬v.Holds p ∧ ¬after.Leads (· ≠ .procedure p) (.procedure p)
  | .error _ after => ¬after.Leads (· ≠ .procedure p) (.procedure p)

section

variable {p : ProcedureId} {q : Procedure} {result result' : EStateM.Result Failure Heap Value}

theorem eq_withProcedure_of_ends (ends : (Correspondence.inserted p q).Ends False ()
    (Correspondence.inserted p q).value result result') : result' = withProcedure p q result := by
  cases ends with
  | ok _ heaps hv => rw [heaps.eq, hv]; rfl
  | error _ heaps he => rw [heaps.eq, he]; rfl
  | outOfDepth _ heaps => rw [heaps.eq]; rfl
  | early h => exact h.elim

theorem abandons_of_ends (ends : (Correspondence.inserted p q).Ends False ()
    (Correspondence.inserted p q).value result result') : Abandons p result' := by
  cases ends with
  | @ok _ v _ _ _ _ heaps hv =>
      rw [heaps.eq, hv]
      exact ⟨v.not_holds_shift p, Heap.not_leads_inserted heaps.le q⟩
  | error _ heaps _ =>
      rw [heaps.eq]
      exact Heap.not_leads_inserted heaps.le q
  | outOfDepth _ heaps =>
      rw [heaps.eq]
      exact Heap.not_leads_inserted heaps.le q
  | early h => exact h.elim

end

/-! ## The procedure that is applied -/

section

variable {names : List String} {values body : List Value} {heap : Heap} {p : ProcedureId} {q : Procedure}

/-- Code that mentions earlier procedures alone stands for itself. -/
theorem forall₂_unshifted {es : List Value} (earlier : ∀ e ∈ es, e.Below p) :
    List.Forall₂ (CodePairs.shifted p).rel es es :=
  List.forall₂_same.mpr fun e mem => (e.shift_of_below (earlier e mem)).symm

/-- The procedure stays as it is while values are evaluated. -/
theorem Call.inserted_stays (inserted : heap.Inserted p q (heap.insertProcedure p q))
    (earlier : ∀ e ∈ values, e.Below p) {env : FrameId} {vs : List Value} {after : Heap}
    (ran : evalEach (fun e => unbounded (.eval e env)) values (heap.insertProcedure p q) = .ok vs after) :
    after.procedures[p]? = some q := by
  have lawful := Correspondence.inserted_lawful p q
  have tends := tends_evalEach values env
  have ends : ∀ levels, (Correspondence.inserted p q).Ends False ()
      (fun _ => List.Forall₂ fun v w => w = v.shift p)
      (evalEach (fun e => perform levels (.eval e env)) values heap)
      (evalEach (fun e => perform levels (.eval e env)) values (heap.insertProcedure p q)) := fun levels => by
    have calls := Correspondence.perform lawful levels
    exact Correspondence.matches_evalEach lawful (Correspondence.matches_eval_later lawful calls rfl)
      (forall₂_unshifted earlier) _ _ inserted
  obtain ⟨result, _, ends⟩ :=
    (Correspondence.comesTo_of_ends tends tends ends).2 _ (tends.comesTo_iff.mpr ⟨ran, nofun⟩)
  cases ends with
  | ok _ heaps _ =>
      rw [heaps.eq]
      exact Heap.getElem?_procedures_inserted heaps.le q
  | early h => exact h.elim

/-- To apply a `lambda` at once is to bind its names together, once its closure is made. -/
theorem Call.unbounded_appliedLambda (are_names : ∀ name ∈ names, Literal.ofText name = .name)
    (distinct : names.Nodup) (all : names.length = values.length) (nonempty : body ≠ []) {env : FrameId}
    (stays : ∀ vs after, evalEach (fun e => unbounded (.eval e env)) values
      (heap.newProcedure (.closure ⟨names, Form.sequence body, env, none⟩)).2 = .ok vs after →
        after.procedures[heap.procedures.size]? =
          some (.closure ⟨names, Form.sequence body, env, none⟩)) :
    unbounded (.eval (.list (Form.lambdaCode names body :: values)) env) heap =
      Form.bindTogether unbounded names values body env
        (heap.newProcedure (.closure ⟨names, Form.sequence body, env, none⟩)).2 := by
  have made := unbounded_lambdaCode_ok (Shape.lambda_code are_names distinct nonempty) env heap
  rw [unbounded_eval]
  refine (bind_of_ok made _).trans ?_
  simp only [unbounded_nested]
  generalize (heap.newProcedure (.closure ⟨names, Form.sequence body, env, none⟩)).2 = start at stays ⊢
  cases ran : evalEach (fun e => unbounded (.eval e env)) values start with
  | error failure after => exact (bind_of_error ran _).trans (bind_of_error ran _).symm
  | ok vs after =>
      have count := (length_of_evalEach ran).trans all.symm
      refine (bind_of_ok ran _).trans (Eq.trans ?_ (bind_of_ok ran _).symm)
      rw [unbounded_apply_closure (stays vs after ran) distinct count]
      simp only [unbounded_sequence nonempty]

end

/-! ## `let` and the applied `lambda` -/

/-- **`let` is an immediately applied `lambda`**.  Away from the limit on nested calls, a `let` does what
`Form.bindTogether` does: the values are evaluated in order in the frame at hand, and then the body once, in one new
frame, whose parent is the frame at hand and which holds the names in their order.  The applied `lambda` makes a
closure and then does the same.  So both come to the same value or the same error, and leave the same heap but
for the closure: it is there as it was made, and neither the value nor anything else in the heap leads to it.

The heap and the code mention nothing that is not there; evaluation keeps it so (`Heap.Grounded.perform`).
Procedures of a host do not look at the numbers of addresses. -/
theorem let_is_applied_lambda (names : List String) (values body : List Value)
    (are_names : ∀ name ∈ names, Literal.ofText name = .name) (distinct : names.Nodup)
    (all : names.length = values.length) (nonempty : body ≠ []) (heap : Heap) (grounded : heap.Grounded)
    (blind : heap.HostsBlind heap.procedures.size)
    (earlier : ∀ e ∈ values ++ body, e.Below heap.procedures.size) (env : FrameId) :
    let id := heap.procedures.size
    let closure : Procedure := .closure ⟨names, Form.sequence body, env, none⟩
    let comesTo (code : Value) (result : EStateM.Result Failure Heap Value) : Prop :=
      ComesTo (fun levels => Call.perform levels (.eval code env)) heap result
    let bindingComesTo (start : Heap) (result : EStateM.Result Failure Heap Value) : Prop :=
      ComesTo (fun levels => Form.bindTogether (Call.perform levels) names values body env) start result
    let bound := Form.letCode .letForm (names.zip values) body
    let applied : Value := .list (Form.lambdaCode names body :: values)
    (∀ result, comesTo bound result ↔ bindingComesTo heap result) ∧
    (∀ result, comesTo applied result ↔ bindingComesTo (heap.newProcedure closure).2 result) ∧
    (∀ result', comesTo applied result' ↔
      ∃ result, comesTo bound result ∧ result' = withProcedure id closure result) ∧
    ∀ result', comesTo applied result' → Abandons id result' := by
  intro id closure comesTo bindingComesTo bound applied
  have made : (heap.newProcedure closure).2 = heap.insertProcedure id closure :=
    Heap.newProcedure_eq_insert grounded closure
  have inserted : heap.Inserted id closure (heap.insertProcedure id closure) :=
    ⟨blind, Nat.le_refl id, rfl⟩
  obtain ⟨earlier_values, earlier_body⟩ := List.forall_mem_append.mp earlier
  have tends := Call.tends_bindTogether names values body env
  have first : ∀ result, comesTo bound result ↔ bindingComesTo heap result := fun result => by
    simp only [comesTo, bindingComesTo, Call.comesTo_iff, tends.comesTo_iff, bound,
      Call.unbounded_letCode are_names distinct all nonempty]
  have second : ∀ result, comesTo applied result ↔ bindingComesTo (heap.newProcedure closure).2 result := by
    intro result
    have same := Call.unbounded_appliedLambda are_names distinct all nonempty fun vs after ran =>
      Call.inserted_stays inserted earlier_values (made ▸ ran)
    simp only [comesTo, bindingComesTo, Call.comesTo_iff, tends.comesTo_iff, applied, same, closure]
  have ends : ∀ levels, (Correspondence.inserted id closure).Ends False ()
      (Correspondence.inserted id closure).value
      (Form.bindTogether (Call.perform levels) names values body env heap)
      (Form.bindTogether (Call.perform levels) names values body env (heap.insertProcedure id closure)) := by
    intro levels
    have lawful := Correspondence.inserted_lawful id closure
    exact Correspondence.matches_bindTogether lawful (Correspondence.perform lawful levels)
      (List.forall₂_same.mpr fun _ _ => rfl) (forall₂_unshifted earlier_values)
      (forall₂_unshifted earlier_body) rfl _ _ inserted
  obtain ⟨forward, backward⟩ := Correspondence.comesTo_of_ends tends tends ends
  refine ⟨first, second, fun result' => ⟨fun h => ?_, ?_⟩, fun result' h => ?_⟩
  · obtain ⟨result, came, ends⟩ := backward result' (made ▸ (second result').mp h)
    exact ⟨result, (first result).mpr came, eq_withProcedure_of_ends ends⟩
  · rintro ⟨result, came, rfl⟩
    obtain ⟨result', came', ends⟩ := forward result ((first result).mp came)
    rw [← eq_withProcedure_of_ends ends]
    exact (second result').mpr (made ▸ came')
  · obtain ⟨_, _, ends⟩ := backward result' (made ▸ (second result').mp h)
    exact abandons_of_ends ends

/-- Where `let` is bound to 1 and `first` to a procedure of the host, `(let ((f (lambda () let))) (first f))` makes
one closure and answers with it.  The `lambda` that is applied at once makes its own closure before that. -/
theorem let_is_applied_lambda_host :
    let first : Procedure := .host "first" fun args => .answer (args.headD .nil)
    let root : Frame := ⟨none, [("let", .int 1), ("first", .procedure 0)]⟩
    let heap : Heap := ⟨#[root], #[first]⟩
    let body : Value := .list [.atom "first", .atom "f"]
    let comesTo (code : Value) (result : EStateM.Result Failure Heap Value) : Prop :=
      ComesTo (fun levels => Call.perform levels (.eval code 0)) heap result
    (heap.Grounded ∧ heap.HostsBlind 1) ∧
    comesTo (Form.letCode .letForm [("f", Form.lambdaCode [] [.atom "let"])] [body]) (.ok (.procedure 1)
      ⟨#[root, ⟨some 0, [("f", .procedure 1)]⟩], #[first, .closure ⟨[], .atom "let", 0, none⟩]⟩) ∧
    comesTo (.list [Form.lambdaCode ["f"] [body], Form.lambdaCode [] [.atom "let"]]) (.ok (.procedure 2)
      ⟨#[root, ⟨some 0, [("f", .procedure 2)]⟩],
        #[first, .closure ⟨["f"], body, 0, none⟩, .closure ⟨[], .atom "let", 0, none⟩]⟩) := by
  intro first root heap body comesTo
  have grounded : heap.Grounded := {
    parent := fun {f _} h => by rcases f with _ | f <;> cases h
    slot := fun {_ _ _} there mem holds => by
      simp only [heap, root, List.mem_toArray, List.mem_singleton] at there
      subst there
      simp only [List.mem_cons, List.not_mem_nil, or_false] at mem
      rcases mem with rfl | rfl <;> cases holds
      exact Nat.zero_lt_one
    env := fun there => by simp [heap, first] at there
    body := fun there => by simp [heap, first] at there }
  have blind : heap.HostsBlind 1 := by
    intro name respond there args
    simp only [heap, first, List.mem_toArray, List.mem_singleton, Procedure.host.injEq] at there
    obtain ⟨rfl, rfl⟩ := there
    cases args <;> rfl
  have earlier : ∀ e ∈ [Form.lambdaCode [] [.atom "let"], body], e.Below heap.procedures.size := by
    intro e mem id holds
    have written : ∃ expr : Expr, e = expr.toValue := by
      rcases List.mem_cons.mp mem with rfl | mem
      · exact ⟨.list [.atom "lambda", .list [], .atom "let"], rfl⟩
      · exact ⟨.list [.atom "first", .atom "f"], List.mem_singleton.mp mem⟩
    obtain ⟨expr, rfl⟩ := written
    exact absurd holds (expr.written_toValue.not_holds id)
  have bound : comesTo (Form.letCode .letForm [("f", Form.lambdaCode [] [.atom "let"])] [body])
      (.ok (.procedure 1)
        ⟨#[root, ⟨some 0, [("f", .procedure 1)]⟩], #[first, .closure ⟨[], .atom "let", 0, none⟩]⟩) :=
    Call.comesTo_of_perform 8 rfl nofun
  refine ⟨⟨grounded, blind⟩, bound, ?_⟩
  have applied := (let_is_applied_lambda ["f"] [Form.lambdaCode [] [.atom "let"]] [body]
    (List.forall_mem_singleton.mpr rfl) (by decide) rfl nofun heap grounded blind earlier 0).2.2.1
  refine (applied _).mpr ⟨_, bound, ?_⟩
  cbv

end ScopedLisp
