import ScopedLisp.Proofs.Evaluation.Confinement
import ScopedLisp.Proofs.Form.Pairs
import ScopedLisp.Proofs.Primitive.Answers

/-!
# ScopedLisp.Proofs.Evaluation.Correspondence

Two runs side by side.  A `Correspondence` says when two heaps, frames, values, pieces of code and
errors stand for one another.  What stands for what depends on a *world*, which may become a later
one as frames and closures are made.  The correspondence is `Lawful` if every single thing that
evaluation does to a heap, or finds out about it, comes out alike on both sides.

The main statement, `Correspondence.perform`, says that then whole calls come out alike: with values that
stand for one another, with errors that do, or out of depth, and in each case with such heaps.  Its
step, `Correspondence.Follows.step`, also allows the second run more levels than the first; then the
first may run out of depth `early`.  The proof has the shape of that of `Confinement.perform`: one
lemma for each form and each way to apply a procedure.
-/

namespace ScopedLisp

open Evaluation

/-! ## Errors of shape -/

/-- The code in an error may be put in place in two steps. -/
theorem ShapeError.map_const {α β : Type} (e : ShapeError α) (b : β) :
    (e.map fun _ => b) = (e.map fun _ => ()).map fun _ => b := by
  cases e <;> rfl

/-- The report of an error of shape depends on the error and on how the code in it is described. -/
theorem ShapeError.report_congr {h h' : Heap} {e e' : ShapeError Value}
    (same : (e.map fun _ => ()) = (e'.map fun _ => ()))
    (found : Option.Rel (fun v w => v.describe h = w.describe h') e.found? e'.found?) :
    e.report h = e'.report h' := by
  have texts : ∀ text : String, (e.map fun _ => text) = (e'.map fun _ => text) := fun text => by
    rw [e.map_const, e'.map_const, same]
  simp only [report]
  generalize e.found? = x at found ⊢
  generalize e'.found? = y at found ⊢
  cases found with
  | none => simp only [texts]
  | some described => simp only [described, texts]

/-! ## Runs that end together -/

/-- Two runs end together: both with values, both with errors or both for want of depth.  Says how the
heaps, the values and the errors are related. -/
inductive EndTogether (heaps : Heap → Heap → Prop) (values : Value → Value → Prop)
    (errors : EvalError → EvalError → Prop) :
    EStateM.Result Failure Heap Value → EStateM.Result Failure Heap Value → Prop where
  | value {v v' : Value} {h h' : Heap} : heaps h h' → values v v' →
      EndTogether heaps values errors (.ok v h) (.ok v' h')
  | error {e e' : EvalError} {h h' : Heap} : heaps h h' → errors e e' →
      EndTogether heaps values errors (.error (.error e) h) (.error (.error e') h')
  | outOfDepth {h h' : Heap} : heaps h h' →
      EndTogether heaps values errors (.error .outOfDepth h) (.error .outOfDepth h')

/-! ## Correspondences -/

/-- When two runs stand for one another.  `site` relates the frames from which procedures are
applied: it may relate more frames than `frame` does, since application seldom looks at them. -/
structure Correspondence where
  World : Type
  later : World → World → Prop
  heaps : World → Heap → Heap → Prop
  frame : World → FrameId → FrameId → Prop
  site : World → FrameId → FrameId → Prop
  value : World → Value → Value → Prop
  spelling : Respelling
  code : World → CodePairs spelling
  error : EvalError → EvalError → Prop

namespace Correspondence

/-! ## What else stands for one another -/

/-- Slots, by name and value. -/
def SlotPair (corr : Correspondence) (w : corr.World) (s t : String × Value) : Prop :=
  corr.spelling.text s.1 t.1 ∧ corr.value w s.2 t.2

/-- Closures, apart from their names. -/
structure ClosurePair (corr : Correspondence) (w : corr.World) (c d : Closure) : Prop where
  formals : List.Forall₂ corr.spelling.text c.formals d.formals
  body : (corr.code w).Body c.body d.body
  env : corr.frame w c.env d.env

/-- Requests of a procedure of the host. -/
inductive RequestPair (corr : Correspondence) (w : corr.World) : HostRequest → HostRequest → Prop where
  | answer {v v' : Value} : corr.value w v v' → RequestPair corr w (.answer v) (.answer v')
  | fail {e e' : EvalError} : corr.error e e' → RequestPair corr w (.fail e) (.fail e')
  | lookup {s t : String} : corr.spelling.text s t → RequestPair corr w (.lookup s) (.lookup t)
  | define {s t : String} {v v' : Value} : corr.spelling.text s t → corr.value w v v' →
      RequestPair corr w (.define s v) (.define t v')
  | depth : RequestPair corr w .depth .depth
  | apply {p p' : Value} {args args' : List Value} : corr.value w p p' →
      List.Forall₂ (corr.value w) args args' → RequestPair corr w (.apply p args) (.apply p' args')

/-- What values are when they are applied.  Procedures of the host may look at the frame that they are
applied from, so with them that frame matters. -/
inductive ProcedurePair (corr : Correspondence) (w : corr.World) :
    Option Procedure → Option Procedure → Prop where
  | none : ProcedurePair corr w none none
  | closure {c d : Closure} : corr.ClosurePair w c d →
      (∀ expected got, corr.error (.parameterCount c.name expected got)
        (.parameterCount d.name expected got)) →
      ProcedurePair corr w (some (.closure c)) (some (.closure d))
  | primitive {s t : String} {p : Primitive} :
      ProcedurePair corr w (some (.primitive s p)) (some (.primitive t p))
  | host {s t : String} {respond respond' : List Value → HostRequest} :
      (∀ args args', List.Forall₂ (corr.value w) args args' →
        corr.RequestPair w (respond args) (respond' args')) →
      (∀ f f', corr.site w f f' → corr.frame w f f') →
      ProcedurePair corr w (some (.host s respond)) (some (.host t respond'))

/-- Calls. -/
inductive CallPair (corr : Correspondence) (w : corr.World) : Call → Call → Prop where
  | eval {e e' : Value} {f f' : FrameId} : (corr.code w).Body e e' → corr.frame w f f' →
      CallPair corr w (.eval e f) (.eval e' f')
  | form {keyword : Keyword} {es es' : List Value} {f f' : FrameId} :
      List.Forall₂ (corr.code w).rel es es' → corr.frame w f f' →
      CallPair corr w (.form keyword es f) (.form keyword es' f')
  | apply {p p' : Value} {args args' : List Value} {f f' : FrameId} : corr.value w p p' →
      List.Forall₂ (corr.value w) args args' → corr.site w f f' →
      CallPair corr w (.apply p args f) (.apply p' args' f')
  | nested {c c' : Call} : CallPair corr w c c' → CallPair corr w (.nested c) (.nested c')

/-- What every single thing that evaluation does comes out as, on both sides. -/
structure Lawful (corr : Correspondence) : Prop where
  later_refl (w : corr.World) : corr.later w w
  later_trans {u v w : corr.World} : corr.later u v → corr.later v w → corr.later u w
  frame_later {u w : corr.World} {f f' : FrameId} : corr.later u w → corr.frame u f f' →
    corr.frame w f f'
  value_later {u w : corr.World} {v v' : Value} : corr.later u w → corr.value u v v' →
    corr.value w v v'
  code_later {u w : corr.World} {e e' : Value} : corr.later u w → (corr.code u).rel e e' →
    (corr.code w).rel e e'
  site_of_frame {w : corr.World} {f f' : FrameId} : corr.frame w f f' → corr.site w f f'
  scalar {w : corr.World} {v : Value} : v.Scalar → corr.value w v v
  unassigned {w : corr.World} : corr.value w .unassigned .unassigned
  isTrue {w : corr.World} {v v' : Value} : corr.value w v v' → v.isTrue = v'.isTrue
  procedureId {w : corr.World} {v v' : Value} : corr.value w v v' →
    (∃ id id', v = .procedure id ∧ v' = .procedure id') ∨
    (∀ id, v ≠ .procedure id) ∧ ∀ id, v' ≠ .procedure id
  newFrame {w : corr.World} {h h' : Heap} {f f' : FrameId} {slots slots' : List (String × Value)} :
    corr.heaps w h h' → corr.frame w f f' → List.Forall₂ (corr.SlotPair w) slots slots' →
    ∃ u, corr.later w u ∧ corr.heaps u (h.newFrame (some f) slots).2 (h'.newFrame (some f') slots').2 ∧
      corr.frame u h.frames.size h'.frames.size
  newClosure {w : corr.World} {h h' : Heap} {c d : Closure} :
    corr.heaps w h h' → corr.ClosurePair w c d → Option.Rel corr.spelling.text c.name d.name →
    ∃ u, corr.later w u ∧
      corr.heaps u (h.newProcedure (.closure c)).2 (h'.newProcedure (.closure d)).2 ∧
      corr.value u (.procedure h.procedures.size) (.procedure h'.procedures.size)
  nameClosure {w : corr.World} {h h' : Heap} {id id' : ProcedureId} {s t : String} :
    corr.heaps w h h' → corr.value w (.procedure id) (.procedure id') → corr.spelling.text s t →
    corr.heaps w (h.nameClosure id s) (h'.nameClosure id' t)
  write {w : corr.World} {h h' : Heap} {f f' : FrameId} {s t : String} {v v' : Value} :
    corr.heaps w h h' → corr.frame w f f' → corr.spelling.text s t → corr.value w v v' →
    corr.heaps w (h.write f s v) (h'.write f' t v')
  lookup {w : corr.World} {h h' : Heap} {f f' : FrameId} {s t : String} :
    corr.heaps w h h' → corr.frame w f f' → corr.spelling.text s t →
    Agree corr.error (corr.value w) (h.lookup f s) (h'.lookup f' t)
  depth {w : corr.World} {h h' : Heap} {f f' : FrameId} :
    corr.heaps w h h' → corr.frame w f f' → h.depth f = h'.depth f'
  isFresh {w : corr.World} {h h' : Heap} {f f' : FrameId} {v v' : Value} :
    corr.heaps w h h' → corr.frame w f f' → corr.value w v v' →
    Form.isFresh h f v = Form.isFresh h' f' v'
  procedure {w : corr.World} {h h' : Heap} {v v' : Value} :
    corr.heaps w h h' → corr.value w v v' → corr.ProcedurePair w (h.procedure? v) (h'.procedure? v')
  primitive {w : corr.World} {h h' : Heap} (p : Primitive) {args args' : List Value} :
    corr.heaps w h h' → List.Forall₂ (corr.value w) args args' →
    Agree corr.error (corr.value w) (p.apply h args) (p.apply h' args')
  shape {w : corr.World} {h h' : Heap} {e e' : ShapeError Value} :
    corr.heaps w h h' → Shape.ErrorPair (corr.code w) e e' → corr.error (e.report h) (e'.report h')
  notEvaluable {w : corr.World} {h h' : Heap} {e e' : Value} :
    corr.heaps w h h' → (corr.code w).rel e e' → Agree corr.error (corr.value w)
      ((e.inspect? h).bind fun shown => .error (.notEvaluable shown))
      ((e'.inspect? h').bind fun shown => .error (.notEvaluable shown))
  notApplicable {w : corr.World} {h h' : Heap} {v v' : Value} :
    corr.heaps w h h' → corr.value w v v' → Agree corr.error (corr.value w)
      ((v.display? h).bind fun shown => .error (.notApplicable shown))
      ((v'.display? h').bind fun shown => .error (.notApplicable shown))

/-! ## Computations -/

/-- How two runs end alike; or the first one ran out of depth `early`, and the other may end in any
way. -/
inductive Ends (corr : Correspondence) {α β : Type} (early : Prop) (w : corr.World)
    (post : corr.World → α → β → Prop) :
    EStateM.Result Failure Heap α → EStateM.Result Failure Heap β → Prop where
  | ok {u : corr.World} {a : α} {b : β} {h h' : Heap} : corr.later w u → corr.heaps u h h' →
      post u a b → Ends corr early w post (.ok a h) (.ok b h')
  | error {u : corr.World} {e e' : EvalError} {h h' : Heap} : corr.later w u → corr.heaps u h h' →
      corr.error e e' → Ends corr early w post (.error (.error e) h) (.error (.error e') h')
  | outOfDepth {u : corr.World} {h h' : Heap} : corr.later w u → corr.heaps u h h' →
      Ends corr early w post (.error .outOfDepth h) (.error .outOfDepth h')
  | early {h : Heap} {r : EStateM.Result Failure Heap β} : early →
      Ends corr early w post (.error .outOfDepth h) r

/-- From heaps that stand for one another the two computations end alike. -/
def Matches (corr : Correspondence) {α β : Type} (early : Prop) (w : corr.World)
    (post : corr.World → α → β → Prop) (x : Evaluation α) (y : Evaluation β) : Prop :=
  ∀ h h', corr.heaps w h h' → corr.Ends early w post (x h) (y h')

/-- The two callers perform calls that stand for one another alike. -/
def Follows (corr : Correspondence) (early : Prop) (call call' : Caller) : Prop :=
  ∀ w c c', corr.CallPair w c c' → corr.Matches early w corr.value (call c) (call' c')

variable {corr : Correspondence} {early : Prop} {w : corr.World} {α β γ δ : Type}
  {post : corr.World → α → β → Prop} {post' : corr.World → γ → δ → Prop}

/-! ### Single computations -/

section Single

variable (lawful : corr.Lawful)

include lawful

/-- What ends alike from a later world does so from an earlier one. -/
theorem Ends.since {u : corr.World} {r : EStateM.Result Failure Heap α}
    {r' : EStateM.Result Failure Heap β} (h : corr.later w u) (ends : corr.Ends early u post r r') :
    corr.Ends early w post r r' := by
  cases ends with
  | ok later heaps hpost => exact .ok (lawful.later_trans h later) heaps hpost
  | error later heaps herror => exact .error (lawful.later_trans h later) heaps herror
  | outOfDepth later heaps => exact .outOfDepth (lawful.later_trans h later) heaps
  | early h => exact .early h

/-- Computations in a row end alike if each does, from the world that the one before has left. -/
theorem Matches.bind {x : Evaluation α} {y : Evaluation β} {next : α → Evaluation γ}
    {next' : β → Evaluation δ} (hx : corr.Matches early w post x y)
    (hnext : ∀ u a b, corr.later w u → post u a b →
      corr.Matches early u post' (next a) (next' b)) :
    corr.Matches early w post' (x >>= next) (y >>= next') := by
  intro h h' heaps
  have ends := hx h h' heaps
  simp only [Bind.bind, EStateM.bind]
  generalize x h = r at ends ⊢
  generalize y h' = r' at ends ⊢
  cases ends with
  | ok later heaps hpost => exact (hnext _ _ _ later hpost _ _ heaps).since lawful later
  | error later heaps herror => exact .error later heaps herror
  | outOfDepth later heaps => exact .outOfDepth later heaps
  | early h => exact .early h

/-- Answers that stand for one another. -/
theorem Matches.pure {a : α} {b : β} (h : post w a b) :
    corr.Matches early w post (pure a) (pure b) :=
  fun _ _ heaps => .ok (lawful.later_refl w) heaps h

/-- What is asked of heaps that stand for one another comes out alike. -/
theorem Matches.query {f : Heap → Except EvalError α} {f' : Heap → Except EvalError β}
    (h : ∀ h h', corr.heaps w h h' → Agree corr.error (post w) (f h) (f' h')) :
    corr.Matches early w post (query f) (query f') := by
  intro heap heap' heaps
  have agree := h heap heap' heaps
  simp only [Evaluation.query]
  generalize f heap = x at agree ⊢
  generalize f' heap' = y at agree ⊢
  cases agree with
  | ok h => exact .ok (lawful.later_refl w) heaps h
  | error h => exact .error (lawful.later_refl w) heaps h

omit lawful in
/-- To look at the heap leaves the world as it is. -/
theorem Matches.view_bind {f : Heap → α} {f' : Heap → β} {next : α → Evaluation γ}
    {next' : β → Evaluation δ}
    (hnext : ∀ h h', corr.heaps w h h' → corr.Matches early w post' (next (f h)) (next' (f' h'))) :
    corr.Matches early w post' (view f >>= next) (view f' >>= next') :=
  fun h h' heaps => hnext h h' heaps h h' heaps

/-- Errors that stand for one another. -/
theorem Matches.fail {e e' : EvalError}
    (h : ∀ h h', corr.heaps w h h' → corr.error e e') :
    corr.Matches early w post (fail e) (fail e') :=
  fun heap heap' heaps => .error (lawful.later_refl w) heaps (h heap heap' heaps)

/-- An error of shape that shows no code. -/
theorem Matches.failPlain {e : ShapeError Value} (h : e.found? = none) (heap : Heap) :
    corr.Matches early w post (Evaluation.fail (e.report heap)) (Evaluation.fail (e.report heap)) := by
  have same : ∀ heap', e.report heap' = e.report heap := fun heap' => by
    simp only [ShapeError.report, h]
  refine Matches.fail lawful fun left right heaps => ?_
  have error := lawful.shape heaps (.plain e h)
  rwa [same left, same right] at error

/-- Checked parts.  To show code of the same height takes the same levels; where only the first run has too
few of them, it runs out of depth early. -/
theorem Matches.shaped {n n' : Nat} (le : n ≤ n') (hearly : n < n' → early)
    {wanted : α → β → Prop} {x : Shape.Checked α} {y : Shape.Checked β}
    (h : Shape.Pair (corr.code w) wanted x y) (hpost : ∀ a b, wanted a b → post w a b) :
    corr.Matches early w post (shaped n x) (shaped n' y) := by
  cases h with
  | ok h => exact Matches.pure lawful (hpost _ _ h)
  | @error e e' h =>
      have levels : (e.found?.map Value.sourceLevels).getD 0 =
          (e'.found?.map Value.sourceLevels).getD 0 := by
        cases h with
        | same _ found =>
            generalize e.found? = x at found ⊢
            generalize e'.found? = y at found ⊢
            cases found with
            | none => rfl
            | some h =>
                simp only [Option.map_some, Option.getD_some, Value.sourceLevels]
                rw [CodePairs.height_eq _ h]
        | body _ => rfl
      intro heap heap' heaps
      simp only [Evaluation.shaped, ← levels]
      by_cases few : n < (e.found?.map Value.sourceLevels).getD 0
      · rw [if_pos few]
        by_cases few' : n' < (e.found?.map Value.sourceLevels).getD 0
        · rw [if_pos few']
          exact .outOfDepth (lawful.later_refl w) heaps
        · exact .early (hearly (by omega))
      · rw [if_neg few, if_neg (by omega)]
        exact .error (lawful.later_refl w) heaps (lawful.shape heaps h)

/-- Frames made side by side stand for one another in a later world. -/
theorem Matches.newFrame {f f' : FrameId} {slots slots' : List (String × Value)}
    (hf : corr.frame w f f') (hslots : List.Forall₂ (corr.SlotPair w) slots slots') :
    corr.Matches early w corr.frame (newFrame f slots) (newFrame f' slots') := by
  intro h h' heaps
  obtain ⟨u, later, heaps, frame⟩ := lawful.newFrame heaps hf hslots
  exact .ok later heaps frame

/-- Closures made side by side stand for one another in a later world. -/
theorem Matches.newClosure {c d : Closure} (pair : corr.ClosurePair w c d)
    (name : Option.Rel corr.spelling.text c.name d.name) :
    corr.Matches early w corr.value (newClosure c) (newClosure d) := by
  intro h h' heaps
  obtain ⟨u, later, heaps, value⟩ := lawful.newClosure heaps pair name
  exact .ok later heaps value

/-- Slots written side by side leave the world as it is. -/
theorem Matches.write {f f' : FrameId} {s t : String} {v v' : Value} (hf : corr.frame w f f')
    (text : corr.spelling.text s t) (hv : corr.value w v v') :
    corr.Matches early w (fun _ _ _ => True) (write f s v) (write f' t v') :=
  fun _ _ heaps => .ok (lawful.later_refl w) (lawful.write heaps hf text hv) trivial

omit lawful in
/-- Only procedures are named. -/
theorem nameClosure_of_other {v : Value} (h : ∀ id, v ≠ .procedure id) (name : String) (heap : Heap) :
    Evaluation.nameClosure v name heap = .ok () heap := by
  cases v with
  | procedure id => exact absurd rfl (h id)
  | _ => rfl

/-- Closures named side by side, or values that are no closures. -/
theorem Matches.nameClosure {s t : String} {v v' : Value} (hv : corr.value w v v')
    (text : corr.spelling.text s t) :
    corr.Matches early w (fun _ _ _ => True) (nameClosure v s) (nameClosure v' t) := by
  intro h h' heaps
  rcases lawful.procedureId hv with ⟨id, id', rfl, rfl⟩ | ⟨other, other'⟩
  · exact .ok (lawful.later_refl w) (lawful.nameClosure heaps hv text) trivial
  · rw [nameClosure_of_other other, nameClosure_of_other other']
    exact .ok (lawful.later_refl w) heaps trivial

/-! ### Later worlds -/

theorem codes_later {u : corr.World} {es es' : List Value} (later : corr.later w u)
    (h : List.Forall₂ (corr.code w).rel es es') : List.Forall₂ (corr.code u).rel es es' :=
  h.imp fun _ _ => lawful.code_later later

theorem body_later {u : corr.World} {e e' : Value} (later : corr.later w u)
    (h : (corr.code w).Body e e') : (corr.code u).Body e e' := by
  cases h with
  | code h => exact .code (lawful.code_later later h)
  | sequence h => exact .sequence (codes_later lawful later h)

theorem bindings_later {u : corr.World} {bs cs : List (String × Value)} (later : corr.later w u)
    (h : List.Forall₂ (Shape.BindingPair (corr.code w)) bs cs) :
    List.Forall₂ (Shape.BindingPair (corr.code u)) bs cs :=
  h.imp fun _ _ binding => ⟨binding.1, lawful.code_later later binding.2⟩

omit lawful

/-- Names and values in a row make slots that stand for one another. -/
theorem slots_zip {ss ts : List String} {vs vs' : List Value}
    (texts : List.Forall₂ corr.spelling.text ss ts) (values : List.Forall₂ (corr.value w) vs vs') :
    List.Forall₂ (corr.SlotPair w) (ss.zip vs) (ts.zip vs') := by
  induction texts generalizing vs vs' with
  | nil => exact .nil
  | cons text _ ih =>
      cases values with
      | nil => exact .nil
      | cons value values => exact .cons ⟨text, value⟩ (ih values)

/-- Writes under names that stand for one another go to slots that do. -/
theorem slots_setSlot {name name' : String} {v v' : Value} {slots slots' : List (String × Value)}
    (text : corr.spelling.text name name') (value : corr.value w v v')
    (paired : List.Forall₂ (corr.SlotPair w) slots slots') :
    List.Forall₂ (corr.SlotPair w) (Frame.setSlot name v slots) (Frame.setSlot name' v' slots') := by
  induction paired with
  | nil => exact .cons ⟨text, value⟩ .nil
  | @cons slot slot' rest rest' pair paired ih =>
      have same : slot.1 = name ↔ slot'.1 = name' := Relator.rel_eq corr.spelling.biUnique pair.1 text
      by_cases here : slot.1 = name
      · rw [Frame.setSlot, Frame.setSlot, if_pos here, if_pos (same.mp here)]
        exact .cons ⟨text, value⟩ paired
      · rw [Frame.setSlot, Frame.setSlot, if_neg here, if_neg fun there => here (same.mpr there)]
        exact .cons pair ih

/-- Slots written one after the other on both sides stand for one another. -/
theorem slots_setAll {entries entries' slots slots' : List (String × Value)}
    (written : List.Forall₂ (corr.SlotPair w) entries entries')
    (paired : List.Forall₂ (corr.SlotPair w) slots slots') :
    List.Forall₂ (corr.SlotPair w) (Frame.setAll entries slots) (Frame.setAll entries' slots') := by
  induction written generalizing slots slots' with
  | nil => exact paired
  | cons pair _ ih => exact ih (slots_setSlot pair.1 pair.2 paired)

end Single

/-! ### Rows -/

/-- Rows of pairs are empty together. -/
theorem isEmpty_eq {R : α → β → Prop} {as : List α} {bs : List β} (h : List.Forall₂ R as bs) :
    as.isEmpty = bs.isEmpty := by
  cases h <;> rfl

variable (lawful : corr.Lawful)

include lawful

/-- What is evaluated in turn comes out alike if each piece of code does. -/
theorem matches_evalEach {eval eval' : Value → Evaluation Value} {es es' : List Value}
    (heval : ∀ u, corr.later w u → ∀ e e', (corr.code u).rel e e' →
      corr.Matches early u corr.value (eval e) (eval' e'))
    (h : List.Forall₂ (corr.code w).rel es es') :
    corr.Matches early w (fun u => List.Forall₂ (corr.value u)) (evalEach eval es)
      (evalEach eval' es') := by
  induction es generalizing w es' with
  | nil =>
      cases h
      exact Matches.pure lawful .nil
  | cons e es ih =>
      cases h with
      | cons he hes =>
          refine (heval w (lawful.later_refl w) _ _ he).bind lawful fun u v v' later hv => ?_
          have rest := ih (fun u' later' => heval u' (lawful.later_trans later later'))
            (codes_later lawful later hes)
          refine rest.bind lawful fun u' vs vs' later' hvs => ?_
          exact Matches.pure lawful (.cons (lawful.value_later later' hv) hvs)

/-- What is evaluated in turn for its last value comes out alike if each piece of code does. -/
theorem matches_evalLast {eval eval' : Value → Evaluation Value} {es es' : List Value}
    (heval : ∀ u, corr.later w u → ∀ e e', (corr.code u).rel e e' →
      corr.Matches early u corr.value (eval e) (eval' e'))
    (h : List.Forall₂ (corr.code w).rel es es') :
    corr.Matches early w corr.value (evalLast eval es) (evalLast eval' es') := by
  induction es generalizing w es' with
  | nil =>
      cases h
      exact Matches.pure lawful (lawful.scalar rfl)
  | cons e es ih =>
      cases h with
      | cons he hes =>
          have first := heval w (lawful.later_refl w) _ _ he
          cases hes with
          | nil => exact first
          | cons he' hes =>
              refine first.bind lawful fun u _ _ later _ => ?_
              exact ih (fun u' later' => heval u' (lawful.later_trans later later'))
                (codes_later lawful later (.cons he' hes))

/-! ## Special forms -/

omit lawful in
/-- A clause that is no list with a test is refused. -/
theorem runCond_of_clause (remaining : Nat) (call : Caller) (f : FrameId) {clause : Value}
    (h : ∀ test body, clause ≠ .list (test :: body)) (rest : List Value) :
    Form.runCond remaining call f (clause :: rest) =
      shaped remaining (.error (.condClause clause)) := by
  cases clause with
  | list items =>
      cases items with
      | nil => rfl
      | cons test body => exact absurd rfl (h test body)
  | _ => rfl

variable {call call' : Caller} (follows : corr.Follows early call call') {f f' : FrameId}
  {es es' : List Value}

include follows

omit lawful in
/-- Code evaluated by the callers, in frames that stand for one another. -/
theorem matches_eval {e e' : Value} (he : (corr.code w).rel e e') (hf : corr.frame w f f') :
    corr.Matches early w corr.value (call (.eval e f)) (call' (.eval e' f')) :=
  follows w _ _ (.eval (.code he) hf)

/-- The same in every later world. -/
theorem matches_eval_later (hf : corr.frame w f f') (u : corr.World) (later : corr.later w u)
    (e e' : Value) (he : (corr.code u).rel e e') :
    corr.Matches early u corr.value (call (.eval e f)) (call' (.eval e' f')) :=
  matches_eval follows he (lawful.frame_later later hf)

/-- Operands, each evaluated in a nested call. -/
theorem matches_evalNested (hes : List.Forall₂ (corr.code w).rel es es') (hf : corr.frame w f f') :
    corr.Matches early w (fun u => List.Forall₂ (corr.value u))
      (evalEach (fun e => call (.nested (.eval e f))) es)
      (evalEach (fun e => call' (.nested (.eval e f'))) es') := by
  refine matches_evalEach lawful (fun u later e e' he => ?_) hes
  exact follows u _ _ (.nested (.eval (.code he) (lawful.frame_later later hf)))

theorem matches_runBegin (hes : List.Forall₂ (corr.code w).rel es es') (hf : corr.frame w f f') :
    corr.Matches early w corr.value (Form.runBegin call es f) (Form.runBegin call' es' f') := by
  have last := matches_evalLast lawful (matches_eval_later lawful follows hf) hes
  simp only [Form.runBegin]
  cases hes with
  | nil => exact Matches.failPlain lawful (e := .emptyBegin) rfl .empty
  | cons _ _ => exact last

/-- `and` stops on both sides at the same operand, for the truth of a value is the same. -/
theorem matches_runAnd (hes : List.Forall₂ (corr.code w).rel es es') (hf : corr.frame w f f') :
    corr.Matches early w corr.value (Form.runAnd call f es) (Form.runAnd call' f' es') := by
  induction es generalizing w es' with
  | nil =>
      cases hes
      exact Matches.pure lawful (lawful.scalar trivial)
  | cons e es ih =>
      cases hes with
      | cons he hes =>
          have first := matches_eval follows he hf
          cases hes with
          | nil => exact first
          | cons he' hes =>
              refine first.bind lawful fun u v v' later hv => ?_
              rw [lawful.isTrue hv]
              split
              · exact ih (codes_later lawful later (.cons he' hes)) (lawful.frame_later later hf)
              · exact Matches.pure lawful (lawful.scalar trivial)

/-- `or` stops on both sides at the same operand. -/
theorem matches_runOr (hes : List.Forall₂ (corr.code w).rel es es') (hf : corr.frame w f f') :
    corr.Matches early w corr.value (Form.runOr call f es) (Form.runOr call' f' es') := by
  induction es generalizing w es' with
  | nil =>
      cases hes
      exact Matches.pure lawful (lawful.scalar trivial)
  | cons e es ih =>
      cases hes with
      | cons he hes =>
          refine (matches_eval follows he hf).bind lawful fun u v v' later hv => ?_
          rw [lawful.isTrue hv]
          split
          · exact Matches.pure lawful hv
          · exact ih (codes_later lawful later hes) (lawful.frame_later later hf)

variable {n n' : Nat} (le : n ≤ n') (hearly : n < n' → early)

include le hearly

/-- `if` takes the same branch on both sides. -/
theorem matches_runIf (hes : List.Forall₂ (corr.code w).rel es es') (hf : corr.frame w f f') :
    corr.Matches early w corr.value (Form.runIf n call es f) (Form.runIf n' call' es' f') := by
  have parts : corr.Matches early w (fun u p q => (corr.code u).rel p.1 q.1 ∧
      (corr.code u).rel p.2.1 q.2.1 ∧ Option.Rel (corr.code u).rel p.2.2 q.2.2)
      (shaped n (Shape.conditional es)) (shaped n' (Shape.conditional es')) :=
    Matches.shaped lawful le hearly (Shape.pairs_conditional hes) fun _ _ h => h
  refine parts.bind lawful ?_
  rintro u ⟨test, positive, negative⟩ ⟨test', positive', negative'⟩ later ⟨htest, hpos, hneg⟩
  have hf := lawful.frame_later later hf
  refine (matches_eval follows htest hf).bind lawful fun u' v v' later' hv => ?_
  have hf := lawful.frame_later later' hf
  rw [lawful.isTrue hv]
  split
  · exact matches_eval follows (lawful.code_later later' hpos) hf
  · cases hneg with
    | none => exact Matches.pure lawful (lawful.scalar rfl)
    | some hneg => exact matches_eval follows (lawful.code_later later' hneg) hf

/-- `cond` takes the same clause on both sides, or finds the same clause malformed. -/
theorem matches_runCond (hes : List.Forall₂ (corr.code w).rel es es') (hf : corr.frame w f f') :
    corr.Matches early w corr.value (Form.runCond n call f es) (Form.runCond n' call' f' es') := by
  induction es generalizing w es' with
  | nil =>
      cases hes
      exact Matches.pure lawful (lawful.scalar rfl)
  | cons clause rest ih =>
      cases hes with
      | @cons _ clause' _ rest' hclause hrest =>
          have unsound : Shape.Pair (corr.code w) (corr.value w) (.error (.condClause clause))
              (.error (.condClause clause')) := .error (.same rfl (.some hclause))
          have refused : corr.Matches early w corr.value (shaped n (.error (.condClause clause)))
              (shaped n' (.error (.condClause clause'))) :=
            Matches.shaped lawful le hearly unsound fun _ _ h => h
          rcases CodePairs.list_or hclause with ⟨_, _, rfl, rfl, items⟩ | ⟨hv, hw⟩
          · cases items with
            | nil => exact refused
            | @cons test test' body body' htest hbody =>
                simp only [Form.runCond, ← Shape.isElse_eq htest]
                have body : ∀ u, corr.later w u → corr.Matches early u corr.value
                    (evalLast (fun e => call (.eval e f)) body)
                    (evalLast (fun e => call' (.eval e f')) body') := fun u later =>
                  matches_evalLast lawful
                    (matches_eval_later lawful follows (lawful.frame_later later hf))
                    (codes_later lawful later hbody)
                rw [isEmpty_eq hrest, isEmpty_eq hbody]
                split
                · split
                  · exact Matches.failPlain lawful (e := .elseNotLast) rfl .empty
                  · split
                    · exact Matches.failPlain lawful (e := .elseWithoutBody) rfl .empty
                    · exact body w (lawful.later_refl w)
                · refine (matches_eval follows htest hf).bind lawful fun u v v' later hv => ?_
                  rw [lawful.isTrue hv]
                  split
                  · exact ih (codes_later lawful later hrest) (lawful.frame_later later hf)
                  · split
                    · exact Matches.pure lawful hv
                    · exact body u later
          · rw [runCond_of_clause n call f fun _ _ => hv _, runCond_of_clause n' call' f' fun _ _ => hw _]
            exact refused

/-- `define` writes slots that stand for one another, and names closures alike. -/
theorem matches_runDefine (hes : List.Forall₂ (corr.code w).rel es es') (hf : corr.frame w f f') :
    corr.Matches early w corr.value (Form.runDefine n call es f) (Form.runDefine n' call' es' f') := by
  have finish : ∀ {u : corr.World} {s t : String} {v v' : Value}, corr.later w u →
      corr.spelling.text s t → corr.value u v v' → corr.Matches early u corr.value
        (write f s v >>= fun _ => Pure.pure Value.nil)
        (write f' t v' >>= fun _ => Pure.pure Value.nil) := by
    intro u s t v v' later text hv
    have written : corr.Matches early u _ (write f s v) (write f' t v') :=
      Matches.write lawful (lawful.frame_later later hf) text hv
    exact written.bind lawful fun _ _ _ _ _ => Matches.pure lawful (lawful.scalar rfl)
  have parts : corr.Matches early w (fun u => Shape.DefinitionPair (corr.code u)) _ _ :=
    Matches.shaped lawful le hearly (Shape.pairs_definition hes) fun _ _ h => h
  refine parts.bind lawful ?_
  rintro u d d' later hd
  cases hd with
  | @procedure s t ss ts body body' text texts hbody =>
      have pair : corr.ClosurePair u ⟨ss, body, f, some s⟩ ⟨ts, body', f', some t⟩ :=
        ⟨texts, hbody, lawful.frame_later later hf⟩
      have made : corr.Matches early u corr.value _ _ :=
        Matches.newClosure lawful pair (.some text)
      exact made.bind lawful fun u' _ _ later' hv => finish (lawful.later_trans later later') text hv
  | @value s t expr expr' text hexpr =>
      have value := matches_eval follows hexpr (lawful.frame_later later hf)
      refine value.bind lawful fun u' v v' later' hv => ?_
      have later := lawful.later_trans later later'
      rw [Shape.isLambda_eq hexpr]
      split
      · refine (Matches.nameClosure lawful hv text).bind lawful fun u'' _ _ later'' _ => ?_
        exact finish (lawful.later_trans later later'') text (lawful.value_later later'' hv)
      · exact finish later text hv

omit follows in
/-- `lambda` makes closures that stand for one another. -/
theorem matches_runLambda (hes : List.Forall₂ (corr.code w).rel es es') (hf : corr.frame w f f') :
    corr.Matches early w corr.value (Form.runLambda n es f) (Form.runLambda n' es' f') := by
  have parts : corr.Matches early w (fun u p q => List.Forall₂ corr.spelling.text p.1 q.1 ∧
      (corr.code u).Body p.2 q.2) (shaped n (Shape.lambda es)) (shaped n' (Shape.lambda es')) :=
    Matches.shaped lawful le hearly (Shape.pairs_lambda hes) fun _ _ h => h
  refine parts.bind lawful ?_
  rintro u ⟨formals, body⟩ ⟨formals', body'⟩ later ⟨texts, hbody⟩
  exact Matches.newClosure lawful ⟨texts, hbody, lawful.frame_later later hf⟩ .none

/-! ### Forms with a frame of their own -/

omit follows in
/-- The parts of a `let`, `let*` or `letrec`. -/
theorem matches_letParts (form : String) (duplicates : Bool)
    (hes : List.Forall₂ (corr.code w).rel es es')
    {next next' : List (String × Value) × Value → Evaluation Value}
    (hnext : ∀ u bs cs e e', corr.later w u → List.Forall₂ (Shape.BindingPair (corr.code u)) bs cs →
      (corr.code u).Body e e' → corr.Matches early u corr.value (next (bs, e)) (next' (cs, e'))) :
    corr.Matches early w corr.value (shaped n (Shape.letParts form duplicates es) >>= next)
      (shaped n' (Shape.letParts form duplicates es') >>= next') := by
  have parts : corr.Matches early w (fun u p q =>
      List.Forall₂ (Shape.BindingPair (corr.code u)) p.1 q.1 ∧ (corr.code u).Body p.2 q.2)
      (shaped n (Shape.letParts form duplicates es)) (shaped n' (Shape.letParts form duplicates es')) :=
    Matches.shaped lawful le hearly (Shape.pairs_letParts form duplicates hes) fun _ _ h => h
  refine parts.bind lawful ?_
  rintro u ⟨bs, e⟩ ⟨cs, e'⟩ later ⟨bindings, body⟩
  exact hnext u bs cs e e' later bindings body

theorem matches_runLet (hes : List.Forall₂ (corr.code w).rel es es') (hf : corr.frame w f f') :
    corr.Matches early w corr.value (Form.runLet n call es f) (Form.runLet n' call' es' f') := by
  refine matches_letParts lawful le hearly _ _ hes fun u bs cs e e' later bindings body => ?_
  have hf := lawful.frame_later later hf
  have values := matches_evalNested lawful follows (Shape.codes_of_bindings bindings) hf
  refine values.bind lawful fun u' vs vs' later' hvs => ?_
  have slots := slots_zip (Shape.texts_of_bindings bindings) hvs
  have frame : corr.Matches early u' corr.frame _ _ :=
    Matches.newFrame lawful (lawful.frame_later later' hf) slots
  refine frame.bind lawful fun u'' g g' later'' hg => ?_
  exact follows u'' _ _ (.eval (body_later lawful (lawful.later_trans later' later'') body) hg)

omit le hearly in
/-- The bindings of `let*` are made alike, one by one. -/
theorem matches_bindInOrder {bs cs : List (String × Value)}
    (bindings : List.Forall₂ (Shape.BindingPair (corr.code w)) bs cs) (hf : corr.frame w f f') :
    corr.Matches early w (fun _ _ _ => True) (Form.bindInOrder call f bs)
      (Form.bindInOrder call' f' cs) := by
  induction bs generalizing w cs with
  | nil =>
      cases bindings
      exact Matches.pure lawful trivial
  | cons b bs ih =>
      cases bindings with
      | cons binding bindings =>
          refine (matches_eval follows binding.2 hf).bind lawful fun u v v' later hv => ?_
          have hf := lawful.frame_later later hf
          refine (Matches.write lawful hf binding.1 hv).bind lawful fun u' _ _ later' _ => ?_
          exact ih (bindings_later lawful (lawful.later_trans later later') bindings)
            (lawful.frame_later later' hf)

theorem matches_runLetStar (hes : List.Forall₂ (corr.code w).rel es es') (hf : corr.frame w f f') :
    corr.Matches early w corr.value (Form.runLetStar n call es f)
      (Form.runLetStar n' call' es' f') := by
  refine matches_letParts lawful le hearly _ _ hes fun u bs cs e e' later bindings body => ?_
  have frame : corr.Matches early u corr.frame (newFrame f []) (newFrame f' []) :=
    Matches.newFrame lawful (lawful.frame_later later hf) .nil
  refine frame.bind lawful fun u' g g' later' hg => ?_
  have bound := matches_bindInOrder lawful follows (bindings_later lawful later' bindings) hg
  refine bound.bind lawful fun u'' _ _ later'' _ => ?_
  exact follows u'' _ _ (.eval (body_later lawful (lawful.later_trans later' later'') body)
    (lawful.frame_later later'' hg))

omit le hearly in
/-- The bindings of `letrec` are assigned alike: whether a closure is fresh, and so gets its name, is the same on
both sides. -/
theorem matches_assignInOrder {bs cs : List (String × Value)}
    (bindings : List.Forall₂ (Shape.BindingPair (corr.code w)) bs cs) (hf : corr.frame w f f') :
    corr.Matches early w (fun _ _ _ => True) (Form.assignInOrder call f bs)
      (Form.assignInOrder call' f' cs) := by
  induction bs generalizing w cs with
  | nil =>
      cases bindings
      exact Matches.pure lawful trivial
  | cons b bs ih =>
      cases bindings with
      | @cons _ c _ cs binding bindings =>
          refine (matches_eval follows binding.2 hf).bind lawful fun u v v' later hv => ?_
          have hf := lawful.frame_later later hf
          have finish : ∀ u', corr.later u u' → corr.Matches early u' (fun _ _ _ => True)
              (write f b.1 v >>= fun _ => Form.assignInOrder call f bs)
              (write f' c.1 v' >>= fun _ => Form.assignInOrder call' f' cs) := by
            intro u' later'
            have hf := lawful.frame_later later' hf
            have written : corr.Matches early u' _ (write f b.1 v) (write f' c.1 v') :=
              Matches.write lawful hf binding.1 (lawful.value_later later' hv)
            refine written.bind lawful fun u'' _ _ later'' _ => ?_
            have later := lawful.later_trans later (lawful.later_trans later' later'')
            exact ih (bindings_later lawful later bindings) (lawful.frame_later later'' hf)
          refine Matches.view_bind fun h h' heaps => ?_
          rw [lawful.isFresh heaps hf hv]
          split
          · refine (Matches.nameClosure lawful hv binding.1).bind lawful fun u' _ _ later' _ => ?_
            exact finish u' later'
          · exact finish u (lawful.later_refl u)

theorem matches_runLetrec (hes : List.Forall₂ (corr.code w).rel es es') (hf : corr.frame w f f') :
    corr.Matches early w corr.value (Form.runLetrec n call es f)
      (Form.runLetrec n' call' es' f') := by
  refine matches_letParts lawful le hearly _ _ hes fun u bs cs e e' later bindings body => ?_
  have declared : List.Forall₂ (corr.SlotPair u)
      (bs.map fun b => (b.1, .unassigned)) (cs.map fun c => (c.1, .unassigned)) := by
    simp only [List.forall₂_map_left_iff, List.forall₂_map_right_iff]
    exact bindings.imp fun _ _ binding => ⟨binding.1, lawful.unassigned⟩
  have frame : corr.Matches early u corr.frame _ _ :=
    Matches.newFrame lawful (lawful.frame_later later hf) declared
  refine frame.bind lawful fun u' g g' later' hg => ?_
  have assigned := matches_assignInOrder lawful follows (bindings_later lawful later' bindings) hg
  refine assigned.bind lawful fun u'' _ _ later'' _ => ?_
  exact follows u'' _ _ (.eval (body_later lawful (lawful.later_trans later' later'') body)
    (lawful.frame_later later'' hg))

/-- Every form comes out alike. -/
theorem matches_form (keyword : Keyword) (hes : List.Forall₂ (corr.code w).rel es es')
    (hf : corr.frame w f f') :
    corr.Matches early w corr.value (Form.run n call keyword es f)
      (Form.run n' call' keyword es' f') := by
  cases keyword with
  | ifForm => exact matches_runIf lawful follows le hearly hes hf
  | defineForm => exact matches_runDefine lawful follows le hearly hes hf
  | lambdaForm => exact matches_runLambda lawful le hearly hes hf
  | beginForm => exact matches_runBegin lawful follows hes hf
  | letForm => exact matches_runLet lawful follows le hearly hes hf
  | letStarForm => exact matches_runLetStar lawful follows le hearly hes hf
  | letrecForm => exact matches_runLetrec lawful follows le hearly hes hf
  | andForm => exact matches_runAnd lawful follows hes hf
  | orForm => exact matches_runOr lawful follows hes hf
  | condForm => exact matches_runCond lawful follows le hearly hes hf

/-! ## Calls -/

omit le hearly

omit follows in
/-- Atoms that stand for one another are the same literal, or names that are looked up. -/
theorem matches_evalAtom {s t : String} (text : corr.spelling.text s t) (hf : corr.frame w f f') :
    corr.Matches early w corr.value (Call.evalAtom s f) (Call.evalAtom t f') := by
  simp only [Call.evalAtom, ← corr.spelling.literal text]
  cases Literal.ofText s with
  | boolean b => exact Matches.pure lawful (lawful.scalar trivial)
  | integer i => exact Matches.pure lawful (lawful.scalar trivial)
  | float x => exact Matches.pure lawful (lawful.scalar trivial)
  | oversized digits => exact Matches.failPlain lawful (e := .oversizedLiteral digits) rfl .empty
  | name => exact Matches.query lawful fun h h' heaps => lawful.lookup heaps hf text

/-- Applications and forms come out alike: the heads are keywords together. -/
theorem matches_evalItems (hes : List.Forall₂ (corr.code w).rel es es') (hf : corr.frame w f f') :
    corr.Matches early w corr.value (Call.evalItems call es f) (Call.evalItems call' es' f') := by
  cases hes with
  | nil => exact Matches.failPlain lawful (e := .emptyApplication) rfl .empty
  | @cons head head' operands operands' hhead hoperands =>
      simp only [Call.evalItems, ← Shape.ofHead?_eq hhead]
      cases Keyword.ofHead? head with
      | some keyword => exact follows w _ _ (.form hoperands hf)
      | none =>
          refine (matches_eval follows hhead hf).bind lawful fun u p p' later hp => ?_
          have hf := lawful.frame_later later hf
          have args := matches_evalNested lawful follows (codes_later lawful later hoperands) hf
          refine args.bind lawful fun u' vs vs' later' hvs => ?_
          exact follows u' _ _ (.apply (lawful.value_later later' hp) hvs
            (lawful.site_of_frame (lawful.frame_later later' hf)))

omit lawful follows in
/-- What is not code is not evaluated. -/
theorem evalCode_of_data (call : Caller) (f : FrameId) {v : Value} (h : v.isCode = false) :
    Call.evalCode call v f = failShowing v.inspect? .notEvaluable := by
  cases v <;> first | rfl | cases h

/-- Code comes out alike, if the callers perform its parts alike. -/
theorem matches_evalCode {e e' : Value} (he : (corr.code w).Body e e') (hf : corr.frame w f f') :
    corr.Matches early w corr.value (Call.evalCode call e f) (Call.evalCode call' e' f') := by
  cases he with
  | sequence hes => exact follows w _ _ (.form hes hf)
  | code he =>
      cases (corr.code w).parts he with
      | atom text => exact matches_evalAtom lawful text hf
      | list items => exact matches_evalItems lawful follows items hf
      | array items => exact matches_evalItems lawful follows items hf
      | data hv hw =>
          rw [evalCode_of_data call f hv, evalCode_of_data call' f' hw]
          exact Matches.query lawful fun h h' heaps => lawful.notEvaluable heaps he

/-- Closures are entered alike, or find the same wrong number of arguments. -/
theorem matches_enter {c d : Closure} {args args' : List Value} (pair : corr.ClosurePair w c d)
    (count : ∀ expected got, corr.error (.parameterCount c.name expected got)
      (.parameterCount d.name expected got)) (hargs : List.Forall₂ (corr.value w) args args') :
    corr.Matches early w corr.value (Call.enter call c args) (Call.enter call' d args') := by
  simp only [Call.enter, hargs.length_eq, pair.formals.length_eq]
  split
  · have frame : corr.Matches early w corr.frame _ _ :=
      Matches.newFrame lawful pair.env (slots_setAll (slots_zip pair.formals hargs) .nil)
    refine frame.bind lawful fun u g g' later hg => ?_
    exact follows u _ _ (.nested (.eval (body_later lawful later pair.body) hg))
  · exact Matches.fail lawful fun _ _ _ => count _ _

/-- Requests of the host that stand for one another are answered alike. -/
theorem matches_answer {request request' : HostRequest} (pair : corr.RequestPair w request request')
    (hf : corr.frame w f f') :
    corr.Matches early w corr.value (Call.answer call f request) (Call.answer call' f' request') := by
  cases pair with
  | answer hv => exact Matches.pure lawful hv
  | fail he => exact Matches.fail lawful fun _ _ _ => he
  | lookup text => exact Matches.query lawful fun h h' heaps => lawful.lookup heaps hf text
  | define text hv =>
      have written : corr.Matches early w _ _ _ := Matches.write lawful hf text hv
      exact written.bind lawful fun _ _ _ _ _ => Matches.pure lawful (lawful.scalar rfl)
  | depth =>
      intro h h' heaps
      have same := lawful.depth heaps hf
      simp only [Call.answer, view, same]
      exact .ok (lawful.later_refl w) heaps (lawful.scalar trivial)
  | apply hp hargs => exact follows w _ _ (.apply hp hargs (lawful.site_of_frame hf))

/-- Procedures that stand for one another are applied alike. -/
theorem matches_applyProcedure {p p' : Value} {args args' : List Value} (hp : corr.value w p p')
    (hargs : List.Forall₂ (corr.value w) args args') (hf : corr.site w f f') :
    corr.Matches early w corr.value (Call.applyProcedure call p args f)
      (Call.applyProcedure call' p' args' f') := by
  refine Matches.view_bind fun h h' heaps => ?_
  have found := lawful.procedure heaps hp
  generalize h.procedure? p = procedure at found ⊢
  generalize h'.procedure? p' = procedure' at found ⊢
  cases found with
  | none => exact Matches.query lawful fun h h' heaps => lawful.notApplicable heaps hp
  | closure pair count => exact matches_enter lawful follows pair count hargs
  | primitive => exact Matches.query lawful fun h h' heaps => lawful.primitive _ heaps hargs
  | host respond frame => exact matches_answer lawful follows (respond _ _ hargs) (frame _ _ hf)

/-- What a caller follows, a step that is given the caller follows too. -/
theorem Follows.step {n n' : Nat} (le : n ≤ n') (hearly : n < n' → early) :
    corr.Follows early (Call.step n call) (Call.step n' call') := by
  intro w c c' pair
  cases pair with
  | eval he hf => exact matches_evalCode lawful follows he hf
  | form hes hf => exact matches_form lawful follows le hearly _ hes hf
  | apply hp hargs hf => exact matches_applyProcedure lawful follows hp hargs hf
  | nested pair => exact follows w _ _ pair

omit follows

/-- **Correspondence**: calls that stand for one another come out alike. -/
theorem perform (levels : Nat) : corr.Follows False (Call.perform levels) (Call.perform levels) := by
  induction levels with
  | zero => exact fun w _ _ _ _ _ heaps => .outOfDepth (lawful.later_refl w) heaps
  | succ levels ih => exact ih.step lawful (Nat.le_refl levels) (Nat.lt_irrefl levels)

omit lawful in
/-- What two corresponding runs come to, if neither may be out of depth early. -/
theorem Ends.together {heaps : Heap → Heap → Prop} {values : Value → Value → Prop}
    {r r' : EStateM.Result Failure Heap Value} (ends : corr.Ends False w corr.value r r')
    (hheaps : ∀ u h h', corr.heaps u h h' → heaps h h')
    (hvalues : ∀ u v v', corr.value u v v' → values v v') :
    EndTogether heaps values corr.error r r' := by
  cases ends with
  | ok _ h hv => exact .value (hheaps _ _ _ h) (hvalues _ _ _ hv)
  | error _ h he => exact .error (hheaps _ _ _ h) he
  | outOfDepth _ h => exact .outOfDepth (hheaps _ _ _ h)
  | early h => exact h.elim

end Correspondence

end ScopedLisp
