import ScopedLisp.Proofs.Evaluation.Depth
import ScopedLisp.Proofs.Heap.Omission

/-!
# ScopedLisp.Proofs.Evaluation.Unmentioned

Bindings of names that are not mentioned make no difference.  Where neither the code nor a procedure of
the heap mentions a name, one more binding of it, or another value for it, in whatever frame, is
neither seen nor touched: everything else is looked up and written alike, and the slot itself stays as
it is.

`Heap.Apart` relates the heaps of two runs that began with heaps which differ in this one slot.
-/

namespace ScopedLisp

open Evaluation

/-! ## Code that does not mention a name -/

/-- Every text but one stands for itself. -/
def Respelling.avoiding (name : String) : Respelling where
  text s t := s = t ∧ s ≠ name
  literal h := congrArg _ h.1
  keyword h := congrArg _ h.1
  isElse h := by rw [h.1]
  biUnique := ⟨fun _ _ _ h h' => h.1.trans h'.1.symm, fun _ _ _ h h' => h.1.symm.trans h'.1⟩

/-- Code that does not mention a name stands for itself. -/
def CodePairs.avoiding (name : String) : CodePairs (.avoiding name) where
  rel v w := v = w ∧ v.Avoids name
  parts {v w} h := by
    obtain ⟨rfl, avoids⟩ := h
    have same : ∀ {vs : List Value}, (∀ v ∈ vs, v.Avoids name) →
        List.Forall₂ (fun v w => v = w ∧ v.Avoids name) vs vs := fun h =>
      List.forall₂_same.mpr fun v mem => ⟨rfl, h v mem⟩
    cases avoids with
    | atom ne => exact .atom ⟨rfl, ne⟩
    | list items => exact .list (same items)
    | array items => exact .array (same items)
    | data h => exact .data h h
  list {vs ws} h := by
    have eq : vs = ws := List.forall₂_eq_eq_eq ▸ h.imp fun _ _ h => h.1
    subst eq
    exact ⟨rfl, .list fun v mem => (List.forall₂_same.mp h v mem).2⟩

/-- Does a procedure mention a name neither as a parameter nor in its body? -/
def Procedure.Avoids (name : String) : Procedure → Prop
  | .closure c => name ∉ c.formals ∧ c.body.Avoids name
  | _ => True

namespace Heap

variable {f : FrameId} {name : String} {old : Option Value} {v : Value} {h h' : Heap}

/-- Two heaps differ in one slot: the first has some `old` value there or none, and the second has `v`.  No
procedure knows of the name; only a `begin` that was put around several forms may be the name. -/
structure Apart (f : FrameId) (name : String) (old : Option Value) (v : Value) (h h' : Heap) : Prop where
  hostless : h.Hostless
  formals {id : ProcedureId} {c : Closure} : h.procedures[id]? = some (.closure c) → name ∉ c.formals
  body {id : ProcedureId} {c : Closure} : h.procedures[id]? = some (.closure c) →
    (CodePairs.avoiding name).Body c.body c.body
  lt : f < h.frames.size
  others : h.without f name = h'.without f name
  slot : h.get? f name = old
  slot' : h'.get? f name = some v

namespace Apart

/-- Heaps that are one slot apart have the same procedures. -/
theorem procedures_eq (apart : Apart f name old v h h') : h.procedures = h'.procedures := by
  simpa using congrArg (·.procedures) apart.others

/-- Heaps that are one slot apart have as many frames. -/
theorem size_eq (apart : Apart f name old v h h') : h.frames.size = h'.frames.size := by
  simpa using congrArg (·.frames.size) apart.others

/-- Heaps that are one slot apart have the same chains. -/
theorem chain_eq (apart : Apart f name old v h h') (g : FrameId) : h.chain g = h'.chain g := by
  rw [← chain_without h f name, apart.others, chain_without]

/-- Every other name means the same in heaps that are one slot apart. -/
theorem lookup_eq (apart : Apart f name old v h h') {other : String} (ne : other ≠ name) (g : FrameId) :
    h.lookup g other = h'.lookup g other := by
  rw [← lookup_without h f g ne, apart.others, lookup_without h' f g ne]

/-- A new frame, the same in both, keeps the heaps one slot apart. -/
theorem newFrame (apart : Apart f name old v h h') (parent : FrameId) (slots : List (String × Value)) :
    Apart f name old v (h.newFrame (some parent) slots).2 (h'.newFrame (some parent) slots).2 where
  hostless := apart.hostless
  formals := apart.formals
  body := apart.body
  lt := Nat.lt_of_lt_of_le apart.lt (extends_newFrame ..).frames_le
  others := by
    rw [without_newFrame apart.lt, without_newFrame (apart.size_eq ▸ apart.lt), apart.others]
  slot := by
    rw [get?_newFrame, if_neg (Nat.ne_of_lt apart.lt), apart.slot]
  slot' := by
    rw [get?_newFrame, if_neg (Nat.ne_of_lt (apart.size_eq ▸ apart.lt)), apart.slot']

/-- A new closure that does not mention the name keeps the heaps one slot apart. -/
theorem newClosure (apart : Apart f name old v h h') {c : Closure} (formals : name ∉ c.formals)
    (body : (CodePairs.avoiding name).Body c.body c.body) :
    Apart f name old v (h.newProcedure (.closure c)).2 (h'.newProcedure (.closure c)).2 where
  hostless := apart.hostless.newClosure c
  formals hd := by
    rcases procedure_of_newProcedure hd with ⟨⟨⟩⟩ | hd
    · exact formals
    · exact apart.formals hd
  body hd := by
    rcases procedure_of_newProcedure hd with ⟨⟨⟩⟩ | hd
    · exact body
    · exact apart.body hd
  lt := apart.lt
  others := congrArg (fun h : Heap => (h.newProcedure (.closure c)).2) apart.others
  slot := apart.slot
  slot' := apart.slot'

/-- To name a closure keeps the heaps one slot apart. -/
theorem nameClosure (apart : Apart f name old v h h') (id : ProcedureId) (given : String) :
    Apart f name old v (h.nameClosure id given) (h'.nameClosure id given) where
  hostless := apart.hostless.nameClosure id given
  formals {other c} hc := by
    obtain ⟨d, hd, same, _, _⟩ := closure_of_nameClosure hc
    exact same ▸ apart.formals hd
  body {other c} hc := by
    obtain ⟨d, hd, _, same, _⟩ := closure_of_nameClosure hc
    exact same ▸ apart.body hd
  lt := apart.lt
  others := congrArg (fun h : Heap => h.nameClosure id given) apart.others
  slot := apart.slot
  slot' := apart.slot'

/-- A write under another name, the same in both, keeps the heaps one slot apart. -/
theorem write (apart : Apart f name old v h h') (g : FrameId) {other : String} (ne : other ≠ name)
    (w : Value) : Apart f name old v (h.write g other w) (h'.write g other w) where
  hostless := apart.hostless
  formals := apart.formals
  body := apart.body
  lt := by simpa using apart.lt
  others := by rw [without_write h f g ne, without_write h' f g ne, apart.others]
  slot := by
    rw [get?_write, if_neg fun h => ne h.2.2.symm, apart.slot]
  slot' := by
    rw [get?_write, if_neg fun h => ne h.2.2.symm, apart.slot']

end Apart

end Heap

/-! ## The correspondence -/

/-- Everything stands for itself, in heaps that differ in one slot; the name of the slot is not mentioned. -/
def Correspondence.unmentioned (f : FrameId) (name : String) (old : Option Value) (v : Value) :
    Correspondence where
  World := Unit
  later _ _ := True
  heaps _ h h' := h.Apart f name old v h'
  frame _ g g' := g = g'
  site _ g g' := g = g'
  value _ w w' := w = w'
  spelling := .avoiding name
  code _ := .avoiding name
  error e e' := e = e'

namespace Correspondence

variable {f : FrameId} {name : String} {old : Option Value} {v : Value}

/-- Bodies that avoid the name and stand for one another are one body. -/
theorem eq_of_body {e e' : Value} (h : (CodePairs.avoiding name).Body e e') : e = e' := by
  cases h with
  | code h => exact h.1
  | @sequence vs ws h =>
      have eq : vs = ws := eq_of_forall₂ (h.imp fun _ _ h => h.1)
      rw [eq]

/-- No single step of evaluation tells heaps apart that differ in a slot whose name is not mentioned. -/
theorem unmentioned_lawful (f : FrameId) (name : String) (old : Option Value) (v : Value) :
    (unmentioned f name old v).Lawful where
  later_refl _ := trivial
  later_trans _ _ := trivial
  frame_later _ h := h
  value_later _ h := h
  code_later _ h := h
  site_of_frame h := h
  scalar _ := rfl
  unassigned := rfl
  isTrue h := congrArg _ h
  procedureId {_ w _} h := h ▸ procedureId_refl w
  newFrame {_ h h' g g' slots slots'} apart hg hslots := by
    cases hg
    have eq : slots = slots' := eq_of_forall₂ (hslots.imp fun _ _ pair => Prod.ext pair.1.1 pair.2)
    cases eq
    exact ⟨(), trivial, apart.newFrame g slots, apart.size_eq⟩
  newClosure {_ h h' c d} apart pair given := by
    obtain ⟨formals, body, env, cname⟩ := c
    obtain ⟨formals', body', env', dname⟩ := d
    obtain ⟨hformals, hbody, henv⟩ := pair
    have same : formals = formals' := eq_of_forall₂ (hformals.imp fun _ _ h => h.1)
    have names : cname = dname := by
      cases given with
      | none => rfl
      | some h => rw [h.1]
    cases same
    cases eq_of_body hbody
    cases henv
    cases names
    have fresh : name ∉ formals := fun mem => (List.forall₂_same.mp hformals name mem).2 rfl
    exact ⟨(), trivial, apart.newClosure fresh hbody, congrArg _ (congrArg _ apart.procedures_eq)⟩
  nameClosure apart hid text := by
    cases hid
    cases text.1
    exact apart.nameClosure _ _
  write apart hg text hw := by
    cases hg
    cases hw
    obtain ⟨rfl, ne⟩ := text
    exact apart.write _ ne _
  lookup apart hg text := by
    cases hg
    obtain ⟨rfl, ne⟩ := text
    rw [apart.lookup_eq ne]
    exact agree_refl _
  depth apart hg := by
    cases hg
    rw [Heap.depth_eq_chain_length, Heap.depth_eq_chain_length, apart.chain_eq]
  isFresh apart hg hw := by
    cases hg
    cases hw
    exact Form.isFresh_congr apart.procedures_eq _ _
  procedure {_ h h' w w'} apart hw := by
    cases hw
    have same : h.procedure? w = h'.procedure? w := Heap.procedure?_congr apart.procedures_eq w
    rw [← same]
    cases found : h.procedure? w with
    | none => exact .none
    | some p =>
        obtain ⟨id, rfl, there⟩ := Heap.procedure?_eq_some_iff.mp found
        cases p with
        | closure c =>
            refine .closure ⟨?_, apart.body there, rfl⟩ fun _ _ => rfl
            refine List.forall₂_same.mpr fun s mem => ⟨rfl, ?_⟩
            rintro rfl
            exact apart.formals there mem
        | primitive => exact .primitive
        | host => exact absurd (Array.mem_of_getElem? there) (apart.hostless _ _)
  primitive p args args' apart hargs := by
    cases eq_of_forall₂ hargs
    rw [Primitive.apply_congr apart.procedures_eq]
    exact agree_refl _
  shape {_ h h' e e'} apart pair := by
    cases pair with
    | same shape found =>
        refine ShapeError.report_congr shape ?_
        generalize e.found? = x at found ⊢
        generalize e'.found? = y at found ⊢
        cases found with
        | none => exact .none
        | some hv =>
            cases hv.1
            exact .some (Value.describe_congr apart.procedures_eq _)
    | body text => rw [text.1]; rfl
  notEvaluable apart he := by
    cases he.1
    rw [Value.inspect?_congr apart.procedures_eq]
    exact agree_refl _
  notApplicable apart hw := by
    cases hw
    rw [Value.display?_congr apart.procedures_eq]
    exact agree_refl _

end Correspondence

/-! ## Bindings that make no difference -/

/-- **Unmentioned bindings**.  Let neither the code nor a procedure of the heap mention a name.  To bind
the name in a frame, be it bound there already or not, makes no difference to the evaluation of the code
in whatever frame: it ends with the same value, with the same error or out of depth as before, and the heaps
that it leaves differ in this one slot alone, which still holds in each what it held. -/
theorem unmentioned_binding (heap : Heap) (hostless : heap.Hostless) (name : String)
    (procedures : ∀ p ∈ heap.procedures, p.Avoids name)
    (code : Value) (unmentioned : code.Avoids name) (env f : FrameId) (lt : f < heap.frames.size)
    (v : Value) (levels : Nat) :
    EndTogether
      (fun after after' => after.without f name = after'.without f name ∧
        after.get? f name = heap.get? f name ∧ after'.get? f name = some v)
      (· = ·) (· = ·)
      (Call.perform levels (.eval code env) heap)
      (Call.perform levels (.eval code env) (heap.write f name v)) := by
  have start : heap.Apart f name (heap.get? f name) v (heap.write f name v) :=
    { hostless
      formals := fun h => (procedures _ (Array.mem_of_getElem? h)).1
      body := fun h => .code ⟨rfl, (procedures _ (Array.mem_of_getElem? h)).2⟩
      lt
      others := (Heap.without_write_self heap f name v).symm
      slot := rfl
      slot' := by rw [Heap.get?_write, if_pos ⟨rfl, lt, rfl⟩] }
  have lawful := Correspondence.unmentioned_lawful f name (heap.get? f name) v
  have ends := Correspondence.perform lawful levels () (.eval code env) (.eval code env)
    (.eval (.code ⟨rfl, unmentioned⟩) rfl) _ _ start
  exact ends.together (fun _ _ _ apart => ⟨apart.others, apart.slot, apart.slot'⟩) fun _ _ _ h => h

/-- `(define z (f))` in a root frame where `f` answers with the value of `x`: to bind `y` there as well makes
no difference.  Without it the frame holds `x`, `f` and `z` at the end, and with it `y` between them. -/
theorem unmentioned_binding_define :
    let heap : Heap := ⟨#[⟨none, [("x", .int 1), ("f", .procedure 0)]⟩],
      #[.closure ⟨[], .atom "x", 0, some "f"⟩]⟩
    let code : Value := .list [.atom "define", .atom "z", .list [.atom "f"]]
    let run (heap : Heap) := Call.perform 9 (.eval code 0) heap
    heap.Hostless ∧ (∀ p ∈ heap.procedures, p.Avoids "y") ∧ code.Avoids "y" ∧ 0 < heap.frames.size ∧
    EndTogether
      (fun after after' => after.without 0 "y" = after'.without 0 "y" ∧
        after.get? 0 "y" = heap.get? 0 "y" ∧ after'.get? 0 "y" = some (.int 7))
      (· = ·) (· = ·) (run heap) (run (heap.write 0 "y" (.int 7))) ∧
    (∃ after, run heap = .ok .nil after ∧ after.names 0 = ["x", "f", "z"]) ∧
    ∃ after, run (heap.write 0 "y" (.int 7)) = .ok .nil after ∧
      after.names 0 = ["x", "f", "y", "z"] := by
  intro heap code run
  have procedures : ∀ p ∈ heap.procedures, p.Avoids "y" := by
    intro p mem
    obtain rfl : p = _ := by simpa [heap] using mem
    exact ⟨List.not_mem_nil, .atom (by decide)⟩
  have hostless : heap.Hostless := fun name respond mem => by simp [heap] at mem
  have unmentioned : code.Avoids "y" :=
    (Expr.avoids_toValue_iff _ (.list [.atom "define", .atom "z", .list [.atom "f"]])).mpr (by decide)
  refine ⟨hostless, procedures, unmentioned, Nat.zero_lt_one, ?_, ⟨_, rfl, rfl⟩, ⟨_, rfl, rfl⟩⟩
  exact unmentioned_binding heap hostless "y" procedures code unmentioned 0 0 Nat.zero_lt_one (.int 7) 9

end ScopedLisp
