import ScopedLisp.Proofs.Evaluation.Correspondence
import ScopedLisp.Proofs.Heap.Addresses

/-!
# ScopedLisp.Proofs.Evaluation.Scoping

Scoping is lexical.  What code does in a frame depends on what the frame leads to and on nothing else in
the heap; what a procedure does depends on what the procedure and its arguments lead to, and not on the
frame that it is applied from.  Here "the same" is up to a renaming of the frames and procedures
that the runs make.

`Renaming.Since` is the invariant of two runs that began with heaps that are alike; the correspondence
of these heaps is lawful (`Correspondence.alike_lawful`), and the main statement reads off what
whole runs come to.
-/

namespace ScopedLisp

open Evaluation

/-! ## Two runs from alike heaps -/

/-- Two runs that began with `base` and `base'`, alike by `ρ₀`, have come to heaps that are alike
by `ρ`.  Only what was made since has been paired since, each new frame has a parent, and what
has no partner is as it was. -/
structure Renaming.Since (ρ₀ : Renaming) (base base' : Heap) (ρ : Renaming) (heap heap' : Heap) :
    Prop where
  alike : heap.Alike ρ heap'
  within : ρ₀.Within ρ
  frame {f f' : FrameId} : ρ.frame f f' →
    ρ₀.frame f f' ∨ base.frames.size ≤ f ∧ base'.frames.size ≤ f'
  procedure {id id' : ProcedureId} : ρ.procedure id id' →
    ρ₀.procedure id id' ∨ base.procedures.size ≤ id ∧ base'.procedures.size ≤ id'
  outermost {f f' : FrameId} : ρ.frame f f' → heap.parent? f = none →
    ρ₀.frame f f' ∧ base.parent? f = none
  confined : Heap.Confined ρ₀.Left base heap
  confined' : Heap.Confined ρ₀.Right base' heap'

variable {ρ₀ ρ : Renaming} {base base' heap heap' : Heap}

namespace Renaming.Since

/-- Nothing has happened yet. -/
theorem start (alike : base.Alike ρ₀ base') : ρ₀.Since base base' ρ₀ base base' where
  alike := alike
  within := .refl ρ₀
  frame h := Or.inl h
  procedure h := Or.inl h
  outermost h none := ⟨h, none⟩
  confined := .refl _ _
  confined' := .refl _ _

/-- Frames made on both sides, for one another. -/
theorem newFrame (since : ρ₀.Since base base' ρ heap heap') {f f' : FrameId} (hf : ρ.frame f f')
    {slots slots' : List (String × Value)} (hslots : List.Forall₂ ρ.Slot slots slots') :
    ρ₀.Since base base' (ρ.addFrame heap heap' since.alike) (heap.newFrame (some f) slots).2
      (heap'.newFrame (some f') slots').2 where
  alike := since.alike.newFrame (.some hf) hslots
  within := since.within.trans (within_addFrame since.alike)
  frame h := by
    rcases h with h | ⟨rfl, rfl⟩
    · exact since.frame h
    · exact Or.inr ⟨since.confined.frames_le, since.confined'.frames_le⟩
  procedure h := since.procedure h
  outermost h none := by
    rw [Heap.parent?_newFrame] at none
    rcases h with h | ⟨rfl, rfl⟩
    · rw [if_neg (Nat.ne_of_lt (since.alike.frame_lt h).1)] at none
      exact since.outermost h none
    · rw [if_pos rfl] at none
      cases none
  confined := since.confined.newFrame _ _
  confined' := since.confined'.newFrame _ _

/-- Procedures made on both sides, for one another. -/
theorem newProcedure (since : ρ₀.Since base base' ρ heap heap') {p q : Procedure}
    (h : p.Alike ρ q) :
    ρ₀.Since base base' (ρ.addProcedure heap heap' since.alike) (heap.newProcedure p).2
      (heap'.newProcedure q).2 where
  alike := since.alike.newProcedure h
  within := since.within.trans (within_addProcedure since.alike)
  frame h := since.frame h
  procedure h := by
    rcases h with h | ⟨rfl, rfl⟩
    · exact since.procedure h
    · exact Or.inr ⟨since.confined.procedures_le, since.confined'.procedures_le⟩
  outermost h none := since.outermost h none
  confined := since.confined.newProcedure _
  confined' := since.confined'.newProcedure _

/-- Slots written on both sides, in frames that stand for one another. -/
theorem write (since : ρ₀.Since base base' ρ heap heap') {f f' : FrameId} (hf : ρ.frame f f')
    (name : String) {v w : Value} (hv : v.Alike ρ w) :
    ρ₀.Since base base' ρ (heap.write f name v) (heap'.write f' name w) where
  alike := since.alike.write hf name hv
  within := since.within
  frame := since.frame
  procedure := since.procedure
  outermost h none := since.outermost h (by rwa [Heap.parent?_write] at none)
  confined := by
    refine since.confined.write ?_ name v
    exact (since.frame hf).imp (fun h => ⟨_, h⟩) fun h => h.1
  confined' := by
    refine since.confined'.write ?_ name w
    exact (since.frame hf).imp (fun h => ⟨_, h⟩) fun h => h.2

/-- Closures named on both sides that stand for one another. -/
theorem nameClosure (since : ρ₀.Since base base' ρ heap heap') {id id' : ProcedureId}
    (hid : ρ.procedure id id') (name : String) :
    ρ₀.Since base base' ρ (heap.nameClosure id name) (heap'.nameClosure id' name) where
  alike := since.alike.nameClosure hid name
  within := since.within
  frame := since.frame
  procedure := since.procedure
  outermost h none := since.outermost h none
  confined := by
    refine since.confined.nameClosure ?_ name
    exact (since.procedure hid).imp (fun h => ⟨_, h⟩) fun h => h.1
  confined' := by
    refine since.confined'.nameClosure ?_ name
    exact (since.procedure hid).imp (fun h => ⟨_, h⟩) fun h => h.2

end Renaming.Since

/-! ## The correspondence of alike heaps -/

/-- Code stands for code that is alike. -/
def CodePairs.alike (ρ : Renaming) : CodePairs .refl where
  rel v w := v.Alike ρ w
  parts {v w} h := by
    cases h with
    | procedure _ => exact .data rfl rfl
    | list h => exact .list h
    | array h => exact .array h
    | flat items other =>
        cases v with
        | atom s => exact .atom rfl
        | list _ | array _ => cases items
        | _ => exact .data rfl rfl
  list h := .list h

/-- Heaps, values and code stand for what they are like; procedures may be applied from any frame. -/
def Correspondence.alike (ρ₀ : Renaming) (base base' : Heap) : Correspondence where
  World := Renaming
  later ρ σ := ρ.Within σ
  heaps ρ heap heap' := ρ₀.Since base base' ρ heap heap'
  frame ρ f f' := ρ.frame f f'
  site _ _ _ := True
  value ρ v w := v.Alike ρ w
  spelling := .refl
  code ρ := .alike ρ
  error e e' := e = e'

namespace Correspondence

/-- Bodies are alike as code is. -/
theorem alike_of_body {e e' : Value} (h : (CodePairs.alike ρ).Body e e') : e.Alike ρ e' := by
  cases h with
  | code h => exact h
  | sequence h => exact .list (.cons (.flat rfl nofun) h)

theorem alike_of_scalar {v : Value} (h : v.Scalar) : v.Alike ρ v := by
  cases v with
  | number _ | bool _ | symbol _ => exact .flat rfl (by simp)
  | _ => cases h

/-- Closures that stand for one another are alike, names included. -/
theorem closure_alike {c d : Closure} (pair : (alike ρ₀ base base').ClosurePair ρ c d)
    (name : Option.Rel (fun s t => s = t) c.name d.name) :
    (Procedure.closure c).Alike ρ (.closure d) := by
  have formals : c.formals = d.formals := List.forall₂_eq_eq_eq ▸ pair.formals
  refine .closure formals (alike_of_body pair.body) pair.env ?_
  generalize c.name = x at name ⊢
  generalize d.name = y at name ⊢
  cases name with
  | none => rfl
  | some h => exact congrArg some h

/-- A closure is fresh exactly if the one alike is: their frames are found alike. -/
theorem isFresh_eq (alike : heap.Alike ρ heap') {f f' : FrameId} (hf : ρ.frame f f') {v w : Value}
    (hv : v.Alike ρ w) : Form.isFresh heap f v = Form.isFresh heap' f' w := by
  have found := alike.procedure? hv
  simp only [Form.isFresh, Heap.closure?]
  generalize heap.procedure? v = x at found ⊢
  generalize heap'.procedure? w = y at found ⊢
  cases found with
  | none => rfl
  | some h =>
      cases h with
      | @closure c d _ _ env name =>
          have same : c.env = f ↔ d.env = f' := Relator.rel_eq ρ.frame_unique env hf
          have envs : (c.env == f) = (d.env == f') := by
            rw [Bool.eq_iff_iff, beq_iff_eq, beq_iff_eq]
            exact same
          simp only [name, envs]
      | primitive => rfl

/-- Alike heaps stand for one another. -/
theorem alike_lawful (ρ₀ : Renaming) (base base' : Heap) : (alike ρ₀ base base').Lawful where
  later_refl ρ := .refl ρ
  later_trans first second := first.trans second
  frame_later within h := within.frame h
  value_later within h := h.mono within
  code_later within h := h.mono within
  site_of_frame _ := trivial
  scalar h := alike_of_scalar h
  unassigned := .flat rfl (by simp)
  isTrue h := h.isTrue_eq
  procedureId h := h.procedure_or
  newFrame since hf hslots :=
    ⟨_, Renaming.within_addFrame since.alike, since.newFrame hf hslots, Or.inr ⟨rfl, rfl⟩⟩
  newClosure since pair name :=
    ⟨_, Renaming.within_addProcedure since.alike, since.newProcedure (closure_alike pair name),
      .procedure (Or.inr ⟨rfl, rfl⟩)⟩
  nameClosure since hv text := by
    cases text
    cases hv with
    | procedure h => exact since.nameClosure h _
    | flat _ other => exact absurd rfl (other _)
  write since hf text hv := by
    cases text
    exact since.write hf _ hv
  lookup since hf text := by
    cases text
    exact since.alike.lookup hf _
  depth since hf := since.alike.depth_eq hf
  isFresh since hf hv := isFresh_eq since.alike hf hv
  procedure {_ h h' v w} since hv := by
    have found := since.alike.procedure? hv
    generalize h.procedure? v = x at found ⊢
    generalize h'.procedure? w = y at found ⊢
    cases found with
    | none => exact .none
    | some h =>
        cases h with
        | closure formals body env name =>
            refine .closure ⟨?_, .code body, env⟩ fun expected got => by rw [name]; rfl
            rw [formals]
            exact List.forall₂_same.mpr fun _ _ => rfl
        | primitive => exact .primitive
  primitive p args args' since hargs := by
    rw [since.alike.sameTexts.primitive_eq p hargs]
    cases h : p.apply _ args' with
    | ok v => exact .ok (alike_of_scalar (Primitive.scalar_apply h))
    | error e => exact .error rfl
  shape {_ h h' e e'} since pair := by
    cases pair with
    | same shape found =>
        refine ShapeError.report_congr shape (rel_imp found fun v w hv => ?_)
        exact since.alike.sameTexts.describe hv
    | body text => rw [text]; rfl
  notEvaluable since he := .bind_error (fun _ => rfl) (since.alike.sameTexts.inspect? he) _
  notApplicable since hv := .bind_error (fun _ => rfl) (since.alike.sameTexts.display? hv) _

end Correspondence

/-! ## Runs that end alike -/

/-- Two runs that began with heaps alike by `ρ₀` end alike: with alike values or with the same failure,
and in either case with alike heaps. -/
inductive Renaming.EndAlike (ρ₀ : Renaming) (base base' : Heap) :
    EStateM.Result Failure Heap Value → EStateM.Result Failure Heap Value → Prop where
  | value {ρ : Renaming} {v w : Value} {heap heap' : Heap} : ρ₀.Since base base' ρ heap heap' →
      v.Alike ρ w → EndAlike ρ₀ base base' (.ok v heap) (.ok w heap')
  | failure {ρ : Renaming} {failure : Failure} {heap heap' : Heap} :
      ρ₀.Since base base' ρ heap heap' →
      EndAlike ρ₀ base base' (.error failure heap) (.error failure heap')

/-- Runs that correspond end alike. -/
theorem Renaming.endAlike_of_ends
    {r r' : EStateM.Result Failure Heap Value}
    (ends : (Correspondence.alike ρ₀ base base').Ends False ρ₀
      (Correspondence.alike ρ₀ base base').value r r') : ρ₀.EndAlike base base' r r' := by
  cases ends with
  | ok _ since hv => exact .value since hv
  | error _ since he =>
      cases he
      exact .failure since
  | outOfDepth _ since => exact .failure since
  | early h => exact h.elim

/-- Alike code in paired frames of alike heaps. -/
theorem Renaming.endAlike_eval (alike : base.Alike ρ₀ base') (levels : Nat) {e e' : Value}
    (he : e.Alike ρ₀ e') {f f' : FrameId} (hf : ρ₀.frame f f') :
    ρ₀.EndAlike base base' (Call.perform levels (.eval e f) base)
      (Call.perform levels (.eval e' f') base') := by
  have lawful := Correspondence.alike_lawful ρ₀ base base'
  exact endAlike_of_ends
    (Correspondence.perform lawful levels ρ₀ _ _ (.eval (.code he) hf) _ _ (.start alike))

/-- Alike procedures and arguments, applied from any two frames of alike heaps. -/
theorem Renaming.endAlike_apply (alike : base.Alike ρ₀ base') (levels : Nat) {p p' : Value}
    (hp : p.Alike ρ₀ p') {args args' : List Value}
    (hargs : List.Forall₂ (Value.Alike ρ₀) args args') (site site' : FrameId) :
    ρ₀.EndAlike base base' (Call.perform levels (.apply p args site) base)
      (Call.perform levels (.apply p' args' site') base') := by
  have lawful := Correspondence.alike_lawful ρ₀ base base'
  exact endAlike_of_ends
    (Correspondence.perform lawful levels ρ₀ _ _ (.apply hp hargs trivial) _ _ (.start alike))

/-! ## Lexical scoping -/

/-- To write a frame that is not led to changes nothing that is. -/
theorem Heap.agrees_write {seeds : Address → Prop} {f : FrameId}
    (unled : ¬heap.Leads seeds (.frame f)) (name : String) (v : Value) :
    heap.Agrees seeds (heap.write f name v) where
  frame {g} leads := by
    have ne : g ≠ f := by
      rintro rfl
      exact unled leads
    exact getElem?_frames_write ne name v
  procedure _ := rfl

/-- **Lexical scoping**.  Let two heaps agree on all that a frame leads to: then to evaluate an expression
in that frame ends alike in both.  Let them agree on all that a procedure and its arguments lead
to: then to apply the procedure ends alike in both, from whatever frames it is applied.  In particular
no binding of a frame that they do not lead to is visible to the procedure.  Here everything led to stands for
itself, so it is changed in the same way; nothing else that was there is changed; and what is new
stands for what is new. -/
theorem lexical_scoping (heap heap' : Heap) (levels : Nat) :
    (∀ (e : Expr) (env : FrameId), let seeds := (· = Address.frame env)
      heap.Complete seeds → heap.Agrees seeds heap' →
      (Renaming.on (heap.Leads seeds)).EndAlike heap heap'
        (Call.perform levels (.eval e.toValue env) heap)
        (Call.perform levels (.eval e.toValue env) heap')) ∧
    (∀ (p : Value) (args : List Value) (site site' : FrameId), let seeds := Value.heldBy (p :: args)
      heap.Complete seeds → heap.Agrees seeds heap' →
      (Renaming.on (heap.Leads seeds)).EndAlike heap heap'
        (Call.perform levels (.apply p args site) heap)
        (Call.perform levels (.apply p args site') heap')) ∧
    ∀ (p : Value) (args : List Value) (site site' : FrameId) (f : FrameId) (name : String) (v : Value),
      let seeds := Value.heldBy (p :: args)
      heap.Complete seeds → ¬heap.Leads seeds (.frame f) →
      (Renaming.on (heap.Leads seeds)).EndAlike heap (heap.write f name v)
        (Call.perform levels (.apply p args site) heap)
        (Call.perform levels (.apply p args site') (heap.write f name v)) := by
  have applied : ∀ {heap'} p args site site', heap.Complete (Value.heldBy (p :: args)) →
      heap.Agrees (Value.heldBy (p :: args)) heap' →
      (Renaming.on (heap.Leads (Value.heldBy (p :: args)))).EndAlike heap heap'
        (Call.perform levels (.apply p args site) heap)
        (Call.perform levels (.apply p args site') heap') := by
    intro heap' p args site site' complete agrees
    have self : ∀ v ∈ p :: args, ∀ id, v.Holds id →
        (Renaming.on (heap.Leads (Value.heldBy (p :: args)))).procedure id id :=
      fun v mem id holds => ⟨rfl, .seed ⟨v, mem, holds⟩⟩
    cases Value.alike_selfs _ self with
    | cons hp hargs => exact Renaming.endAlike_apply (agrees.alike complete) levels hp hargs site site'
  refine ⟨?_, fun p args site site' => applied p args site site', ?_⟩
  · intro e env seeds complete agrees
    have code : e.toValue.Alike (.on (heap.Leads seeds)) e.toValue :=
      e.toValue.alike_self fun id holds => absurd holds (e.written_toValue.not_holds id)
    exact Renaming.endAlike_eval (agrees.alike complete) levels code ⟨rfl, .seed rfl⟩
  · intro p args site site' f name v seeds complete unled
    exact applied p args site site' complete (Heap.agrees_write unled name v)

/-- With `x` bound to 1 in the root and `f` a procedure made there, `(f)` applied from an inner frame,
where `x` is bound to 2 or to 3, and from the root: it always sees the 1. -/
theorem lexical_scoping_shadow :
    let heap : Heap := ⟨#[⟨none, [("x", .int 1)]⟩, ⟨some 0, [("x", .int 2)]⟩],
      #[.closure ⟨[], .atom "x", 0, some "f"⟩]⟩
    let f : Value := .procedure 0
    let seeds := Value.heldBy [f]
    (heap.Complete seeds ∧ ¬heap.Leads seeds (.frame 1)) ∧
    (Renaming.on (heap.Leads seeds)).EndAlike heap (heap.write 1 "x" (.int 3))
      (Call.perform 5 (.apply f [] 1) heap)
      (Call.perform 5 (.apply f [] 0) (heap.write 1 "x" (.int 3))) ∧
    ∃ after, Call.perform 5 (.apply f [] 1) heap = .ok (.int 1) after := by
  intro heap f seeds
  have led : ∀ a, heap.Leads seeds a → a = .procedure 0 ∨ a = .frame 0 := by
    intro a leads
    induction leads with
    | @seed a h =>
        cases a with
        | frame _ => exact h.elim
        | procedure id =>
            obtain ⟨v, mem, holds⟩ := h
            obtain rfl : v = .procedure 0 := List.mem_singleton.mp mem
            cases holds
            exact Or.inl rfl
    | parent _ hparent ih =>
        rcases ih with eq | eq <;> cases eq
        cases hparent
    | @slot f name v id _ hget holds ih =>
        rcases ih with eq | eq <;> cases eq
        have hget : [("x", Value.int 1)].lookup name = some v := hget
        simp only [List.lookup_cons, List.lookup_nil] at hget
        split at hget <;> cases hget
        cases holds
    | env _ hc ih =>
        rcases ih with eq | eq <;> cases eq
        cases hc
        exact Or.inr rfl
    | body _ hc holds ih =>
        rcases ih with eq | eq <;> cases eq
        cases hc
        cases holds
  have complete : heap.Complete seeds := by
    constructor
    · intro f leads
      rcases led _ leads with eq | eq <;> cases eq
      exact Nat.zero_lt_two
    · intro id leads
      rcases led _ leads with eq | eq <;> cases eq
      exact Nat.zero_lt_one
    · intro f parent leads hparent
      rcases led _ leads with eq | eq <;> cases eq
      cases hparent
    · intro id name respond leads h
      rcases led _ leads with eq | eq <;> cases eq
      cases h
  have unled : ¬heap.Leads seeds (.frame 1) := fun h => by
    rcases led _ h with eq | eq <;> cases eq
  exact ⟨⟨complete, unled⟩, (lexical_scoping heap heap 5).2.2 f [] 1 0 1 "x" (.int 3) complete unled,
    _, rfl⟩

end ScopedLisp
