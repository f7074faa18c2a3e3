import ScopedLisp.Proofs.Evaluation.Unbounded
import ScopedLisp.Proofs.Heap.Insertion

/-!
# ScopedLisp.Proofs.Evaluation.Insertion

A procedure that nothing leads to makes no difference.  In a heap with one procedure more, code does what it
does without it, and the procedure stays where it is and as it is.  All addresses from its own on are one
further, so what is said of values is said of shifted ones; errors quote no addresses and are the same.
-/

namespace ScopedLisp

open Evaluation

variable {p : ProcedureId} {q : Procedure} {heap heap' : Heap}

/-! ## The correspondence -/

/-- Shifted code stands for the code. -/
def CodePairs.shifted (p : ProcedureId) : CodePairs .refl where
  rel v w := w = v.shift p
  parts {v w} h := by
    subst h
    have items : ∀ vs : List Value,
        List.Forall₂ (fun v w => w = v.shift p) vs (Value.shiftItems p vs) := by
      intro vs
      rw [Value.shiftItems_eq_map, List.forall₂_map_right_iff]
      exact List.forall₂_same.mpr fun _ _ => rfl
    cases v with
    | atom s => exact .atom rfl
    | list vs => exact .list (items vs)
    | array vs => exact .array (items vs)
    | _ => exact .data rfl rfl
  list h := by
    rw [map_eq_of_forall₂ h, ← Value.shiftItems_eq_map]
    rfl

/-- The second heap is the first one with one procedure more. -/
structure Heap.Inserted (p : ProcedureId) (q : Procedure) (heap heap' : Heap) : Prop where
  blind : heap.HostsBlind p
  le : p ≤ heap.procedures.size
  eq : heap' = heap.insertProcedure p q

/-- The heap with the procedure stands for the heap, and shifted values for the values. -/
def Correspondence.inserted (p : ProcedureId) (q : Procedure) : Correspondence where
  World := Unit
  later _ _ := True
  heaps _ := Heap.Inserted p q
  frame _ f f' := f = f'
  site _ f f' := f = f'
  value _ v w := w = v.shift p
  spelling := .refl
  code _ := .shifted p
  error e e' := e = e'

namespace Correspondence

/-- A body that stands for another with one procedure more is that one, with addresses shifted. -/
theorem shift_of_body {e e' : Value} (h : (CodePairs.shifted p).Body e e') : e' = e.shift p := by
  cases h with
  | code h => exact h
  | sequence h =>
      rw [map_eq_of_forall₂ h, ← Value.shiftItems_eq_map]
      rfl

/-- Closures that stand for one another, names included, differ by shifted addresses. -/
theorem shift_of_closure {c d : Closure} (pair : (inserted p q).ClosurePair () c d)
    (name : Option.Rel (fun s t => s = t) c.name d.name) : d = c.shift p := by
  obtain ⟨formals, body, env, cname⟩ := c
  obtain ⟨formals', body', env', dname⟩ := d
  obtain ⟨hformals, hbody, henv⟩ := pair
  have names : dname = cname := by
    cases name with
    | none => rfl
    | some h => rw [h]
  cases eq_of_forall₂ hformals
  cases shift_of_body hbody
  cases henv
  rw [names]
  rfl

/-- A closure and its shifted copy stand for one another. -/
theorem closurePair_shift (c : Closure) : (inserted p q).ClosurePair () c (c.shift p) where
  formals := List.forall₂_same.mpr fun _ _ => rfl
  body := .code rfl
  env := rfl

/-- A row of values and its shifted copy stand for one another, value by value. -/
theorem forall₂_shift (vs : List Value) :
    List.Forall₂ (fun v w => w = v.shift p) vs (vs.map (Value.shift p)) :=
  List.forall₂_map_right_iff.mpr (List.forall₂_same.mpr fun _ _ => rfl)

/-- A request of a host and its shifted copy stand for one another. -/
theorem requestPair_shift (request : HostRequest) :
    (inserted p q).RequestPair () request (request.shift p) := by
  cases request with
  | answer v => exact .answer rfl
  | fail e => exact .fail rfl
  | lookup name => exact .lookup rfl
  | define name v => exact .define rfl rfl
  | depth => exact .depth
  | apply procedure args => exact .apply rfl (forall₂_shift args)

/-- Shifted values are alike, as far as a renaming of addresses goes. -/
theorem alike_of_forall₂ {vs ws : List Value} (h : List.Forall₂ (fun v w => w = v.shift p) vs ws) :
    List.Forall₂ (Value.Alike (.shifting p)) vs ws :=
  h.imp fun v _ eq => eq ▸ v.alike_shift p

/-- A heap with one procedure more stands for the heap. -/
theorem inserted_lawful (p : ProcedureId) (q : Procedure) : (inserted p q).Lawful where
  later_refl _ := trivial
  later_trans _ _ := trivial
  frame_later _ h := h
  value_later _ h := h
  code_later _ h := h
  site_of_frame h := h
  scalar h := (Value.shift_of_scalar h).symm
  unassigned := rfl
  isTrue {_ v _} h := h ▸ (v.alike_shift p).isTrue_eq
  procedureId {_ v _} h := h ▸ (v.alike_shift p).procedure_or
  newFrame {_ h _ f _ slots slots'} heaps hf hslots := by
    obtain ⟨blind, le, rfl⟩ := heaps
    cases hf
    have eq : slots' = slots.map fun slot => (slot.1, slot.2.shift p) :=
      map_eq_of_forall₂ (hslots.imp fun _ _ pair => Prod.ext pair.1.symm pair.2)
    refine ⟨(), trivial, ⟨blind, le, ?_⟩, Array.size_map.symm⟩
    rw [h.insert_newFrame p q, eq]
  newClosure {_ h _ c d} heaps pair name := by
    obtain ⟨blind, le, rfl⟩ := heaps
    have eq := Heap.insert_newProcedure le q (.closure c)
    refine ⟨(), trivial, ⟨blind.newClosure c, ?_, ?_⟩, ?_⟩
    · exact Nat.le_trans le (Heap.extends_newClosure h c).procedures_le
    · rw [eq, shift_of_closure pair name]
      rfl
    · exact congrArg Value.procedure
        ((Heap.size_procedures_insert le q).trans (shiftId_of_le le).symm)
  nameClosure {_ h _ id id' s _} heaps hid text := by
    obtain ⟨blind, le, rfl⟩ := heaps
    cases hid
    cases text
    refine ⟨blind.nameClosure id s, ?_, (Heap.insert_nameClosure le q id s).symm⟩
    exact Nat.le_trans le (Heap.extends_nameClosure h id s).procedures_le
  write {_ h _ f _ s _ v _} heaps hf text hv := by
    obtain ⟨blind, le, rfl⟩ := heaps
    cases hf
    cases text
    cases hv
    exact ⟨blind, le, (h.insert_write p q f s v).symm⟩
  lookup {_ h _ f _ s _} heaps hf text := by
    obtain ⟨-, -, rfl⟩ := heaps
    cases hf
    cases text
    rw [h.lookup_insert p q]
    cases h.lookup f s with
    | ok v => exact .ok rfl
    | error e => exact .error rfl
  depth {_ h _ f _} heaps hf := by
    obtain ⟨-, -, rfl⟩ := heaps
    cases hf
    rw [Heap.depth_eq_chain_length, Heap.depth_eq_chain_length, h.chain_insert p q f]
  isFresh {_ h _ f _ v _} heaps hf hv := by
    obtain ⟨-, -, rfl⟩ := heaps
    cases hf
    cases hv
    exact (Form.isFresh_insert h p q f v).symm
  procedure {_ h _ v _} heaps hv := by
    obtain ⟨blind, -, rfl⟩ := heaps
    cases hv
    rw [h.procedure?_insert p q]
    cases found : h.procedure? v with
    | none => exact .none
    | some r =>
        cases r with
        | closure c => exact .closure (closurePair_shift c) fun _ _ => rfl
        | primitive => exact .primitive
        | host name respond =>
            obtain ⟨id, rfl, there⟩ := Heap.procedure?_eq_some_iff.mp found
            refine .host (fun args args' hargs => ?_) fun _ _ hf => hf
            cases map_eq_of_forall₂ hargs
            rw [blind name respond (Array.mem_of_getElem? there)]
            exact requestPair_shift _
  primitive {_ h _} r args args' heaps hargs := by
    obtain ⟨-, -, rfl⟩ := heaps
    rw [(h.sameTexts_insert p q).primitive_eq r (alike_of_forall₂ hargs)]
    cases answer : r.apply _ args' with
    | ok v => exact .ok (Value.shift_of_scalar (Primitive.scalar_apply answer)).symm
    | error e => exact .error rfl
  shape {_ h _ e e'} heaps pair := by
    obtain ⟨-, -, rfl⟩ := heaps
    cases pair with
    | same shape found =>
        refine ShapeError.report_congr shape (rel_imp found fun v w hw => ?_)
        exact hw ▸ (h.sameTexts_insert p q).describe (v.alike_shift p)
    | body text => rw [text]; rfl
  notEvaluable {_ h _ e _} heaps he := by
    obtain ⟨-, -, rfl⟩ := heaps
    cases he
    exact .bind_error (fun _ => rfl) ((h.sameTexts_insert p q).inspect? (e.alike_shift p)) _
  notApplicable {_ h _ v _} heaps hv := by
    obtain ⟨-, -, rfl⟩ := heaps
    cases hv
    exact .bind_error (fun _ => rfl) ((h.sameTexts_insert p q).display? (v.alike_shift p)) _

end Correspondence

end ScopedLisp
