import ScopedLisp.Proofs.Form.Pairs
import ScopedLisp.Proofs.Heap.Growth
import ScopedLisp.Proofs.Primitive.Answers

/-!
# ScopedLisp.Proofs.Heap.Renaming

Heaps that are alike up to the names of their addresses.  A `Renaming` pairs addresses of one heap with
addresses of another, no two with one.  Values are alike if they differ in the addresses of their
procedures only, and in those as the renaming says; heaps are alike if what is at paired addresses is.

Nothing that is found out about alike heaps tells them apart: neither a lookup (`Heap.Alike.lookup`) nor
a text (`Heap.SameTexts.inspect?`, `Heap.SameTexts.display?`) nor the identity of procedures
(`Value.Alike.same_eq`).  And what evaluation does to a heap keeps heaps alike.
-/

namespace ScopedLisp

/-- Pairs of addresses of two heaps.  Each address has one partner at most. -/
structure Renaming where
  frame : FrameId → FrameId → Prop
  procedure : ProcedureId → ProcedureId → Prop
  frame_unique : Relator.BiUnique frame
  procedure_unique : Relator.BiUnique procedure

variable {ρ σ : Renaming} {heap heap' : Heap}

/-! ## Alike values -/

/-- Values that differ in the addresses of procedures only. -/
inductive Value.Alike (ρ : Renaming) : Value → Value → Prop where
  | procedure {id id' : ProcedureId} : ρ.procedure id id' →
      Alike ρ (.procedure id) (.procedure id')
  | list {vs ws : List Value} : List.Forall₂ (Alike ρ) vs ws → Alike ρ (.list vs) (.list ws)
  | array {vs ws : List Value} : List.Forall₂ (Alike ρ) vs ws → Alike ρ (.array vs) (.array ws)
  | flat {v : Value} : v.items? = none → (∀ id, v ≠ .procedure id) → Alike ρ v v

namespace Value.Alike

/-- Induction on alike values: what is to be shown of a list is known of its items. -/
@[elab_as_elim]
theorem induct {motive : (v w : Value) → Alike ρ v w → Prop}
    (procedure : ∀ {id id'} (h : ρ.procedure id id'), motive _ _ (.procedure h))
    (list : ∀ {vs ws} (h : List.Forall₂ (Alike ρ) vs ws),
      List.Forall₂ (fun v w => ∃ h, motive v w h) vs ws → motive _ _ (.list h))
    (array : ∀ {vs ws} (h : List.Forall₂ (Alike ρ) vs ws),
      List.Forall₂ (fun v w => ∃ h, motive v w h) vs ws → motive _ _ (.array h))
    (flat : ∀ {v : Value} (items : v.items? = none) (other : ∀ id, v ≠ .procedure id),
      motive _ _ (.flat items other))
    {v w : Value} (h : Alike ρ v w) : motive v w h :=
  @Alike.rec ρ motive (fun vs ws _ => List.Forall₂ (fun v w => ∃ h, motive v w h) vs ws)
    procedure list array flat .nil (fun h _ ih ihs => .cons ⟨h, ih⟩ ihs) v w h

variable {v v' w w' : Value}

/-- Alike values are true together. -/
theorem isTrue_eq (h : v.Alike ρ w) : v.isTrue = w.isTrue := by
  cases h <;> rfl

/-- Either both are procedures, or neither is one. -/
theorem procedure_or (h : v.Alike ρ w) : (∃ id id', v = .procedure id ∧ w = .procedure id') ∨
    (∀ id, v ≠ .procedure id) ∧ ∀ id, w ≠ .procedure id := by
  cases h with
  | procedure _ => exact Or.inl ⟨_, _, rfl, rfl⟩
  | list _ | array _ => exact Or.inr ⟨by simp, by simp⟩
  | flat _ other => exact Or.inr ⟨other, other⟩

/-- Alike values can be written together. -/
theorem isUnwritable_eq (h : v.Alike ρ w) : v.isUnwritable = w.isUnwritable := by
  have rows : ∀ {vs ws : List Value},
      List.Forall₂ (fun v w => ∃ _ : Alike ρ v w, v.isUnwritable = w.isUnwritable) vs ws →
      Value.areUnwritable vs = Value.areUnwritable ws := by
    intro vs ws h
    induction h with
    | nil => rfl
    | cons h _ ih =>
        obtain ⟨_, same⟩ := h
        rw [Value.areUnwritable, Value.areUnwritable, same, ih]
  induction h using induct with
  | procedure _ => rfl
  | list _ ih => simpa only [Value.isUnwritable] using rows ih
  | array _ ih => simpa only [Value.isUnwritable] using rows ih
  | flat _ _ => rfl

/-- Either both are the same expression, or neither is one. -/
theorem toExpr_cases (h : v.Alike ρ w) :
    (∃ e, v.toExpr = .ok e ∧ w.toExpr = .ok e) ∨
    ∃ part part', v.toExpr = .error part ∧ w.toExpr = .error part' := by
  have rows : ∀ {vs ws : List Value},
      List.Forall₂ (fun v w => ∃ _ : Alike ρ v w, (∃ e, v.toExpr = .ok e ∧ w.toExpr = .ok e) ∨
        ∃ part part', v.toExpr = .error part ∧ w.toExpr = .error part') vs ws →
      (∃ es, Value.toExprs vs = .ok es ∧ Value.toExprs ws = .ok es) ∨
      ∃ part part', Value.toExprs vs = .error part ∧ Value.toExprs ws = .error part' := by
    intro vs ws h
    induction h with
    | nil => exact Or.inl ⟨[], rfl, rfl⟩
    | cons h _ ih =>
        simp only [Value.toExprs]
        rcases h with ⟨_, ⟨e, he, he'⟩ | ⟨part, part', he, he'⟩⟩
        · rcases ih with ⟨es, hes, hes'⟩ | ⟨part, part', hes, hes'⟩
          · exact Or.inl ⟨e :: es, by rw [he, hes]; rfl, by rw [he', hes']; rfl⟩
          · exact Or.inr ⟨part, part', by rw [he, hes]; rfl, by rw [he', hes']; rfl⟩
        · exact Or.inr ⟨part, part', by rw [he], by rw [he']⟩
  induction h using induct with
  | procedure _ => exact Or.inr ⟨_, _, rfl, rfl⟩
  | list _ ih =>
      simp only [Value.toExpr]
      rcases rows ih with ⟨es, hes, hes'⟩ | ⟨part, part', hes, hes'⟩
      · exact Or.inl ⟨.list es, by rw [hes]; rfl, by rw [hes']; rfl⟩
      · exact Or.inr ⟨part, part', by rw [hes]; rfl, by rw [hes']; rfl⟩
  | array _ _ => exact Or.inr ⟨_, _, rfl, rfl⟩
  | @flat v _ _ =>
      cases h : v.toExpr with
      | ok e => exact Or.inl ⟨e, rfl, rfl⟩
      | error part => exact Or.inr ⟨part, part, rfl, rfl⟩

/-- The kind of a value, as far as a renaming knows kinds. -/
def kind : Value → Nat
  | .procedure _ => 1
  | .list _ => 2
  | .array _ => 3
  | _ => 0

/-- A value that is neither a procedure nor a row has the kind of the others. -/
theorem kind_of_flat (items : v.items? = none) (other : ∀ id, v ≠ .procedure id) : kind v = 0 := by
  cases v with
  | procedure id => exact absurd rfl (other id)
  | list _ | array _ => cases items
  | _ => rfl

/-- Values of different kinds are not equal. -/
theorem equal_of_kind_ne (h : kind v ≠ kind w) : v.equal w = false := by
  cases v <;> cases w <;> first | rfl | exact absurd rfl h

/-- Alike values are of one kind. -/
theorem kind_eq (h : v.Alike ρ w) : kind v = kind w := by
  cases h <;> rfl

/-- Values of different kinds are not equal, and neither are those that they are like. -/
theorem equal_eq_of_kind_ne (h : v.Alike ρ w) (h' : v'.Alike ρ w') (ne : kind v ≠ kind v') :
    v.equal v' = w.equal w' := by
  have ne' : kind w ≠ kind w' := by rwa [← h.kind_eq, ← h'.kind_eq]
  rw [equal_of_kind_ne ne, equal_of_kind_ne ne']

/-- Equality of the host does not tell alike values apart: of procedures it sees the identity. -/
theorem equal_eq (h : v.Alike ρ w) (h' : v'.Alike ρ w') : v.equal v' = w.equal w' := by
  have rows : ∀ {vs ws : List Value},
      List.Forall₂ (fun v w => ∃ _ : Alike ρ v w, ∀ {v' w'}, v'.Alike ρ w' → kind v = kind v' →
        v.equal v' = w.equal w') vs ws →
      ∀ {vs' ws' : List Value}, List.Forall₂ (Alike ρ) vs' ws' →
      Value.equalItems vs vs' = Value.equalItems ws ws' := by
    intro vs ws h
    induction h with
    | nil => rintro _ _ (_ | _) <;> simp [Value.equalItems]
    | cons h _ ih =>
        obtain ⟨h, same⟩ := h
        rintro _ _ (_ | ⟨h', hs'⟩)
        · simp [Value.equalItems]
        · have first := Decidable.byCases (same h') (equal_eq_of_kind_ne h h')
          simp only [Value.equalItems, first, ih hs']
  by_cases same : kind v = kind v'
  · induction h using induct generalizing v' w' with
    | @procedure id id' h =>
        cases h' with
        | @procedure other other' h' =>
            have same : id = other ↔ id' = other' := Relator.rel_eq ρ.procedure_unique h h'
            by_cases eq : id = other <;> simp_all [Value.equal]
        | flat items other => cases same.trans (kind_of_flat items other)
        | _ => cases same
    | list _ ih =>
        cases h' with
        | list h' => simpa only [Value.equal] using rows ih h'
        | flat items other => cases same.trans (kind_of_flat items other)
        | _ => cases same
    | array _ ih =>
        cases h' with
        | array h' => simpa only [Value.equal] using rows ih h'
        | flat items other => cases same.trans (kind_of_flat items other)
        | _ => cases same
    | flat items other =>
        cases h' with
        | flat _ _ => rfl
        | _ => cases (kind_of_flat items other).symm.trans same
  · exact equal_eq_of_kind_ne h h' same

/-- Nor does equality inside the language. -/
theorem same_eq (h : v.Alike ρ w) (h' : v'.Alike ρ w') : v.same v' = w.same w' := by
  have equal := equal_eq h h'
  cases h with
  | @flat v _ _ =>
      cases h' with
      | flat _ _ => rfl
      | _ => cases v <;> first | rfl | exact equal
  | _ =>
      cases h' with
      | @flat v' _ _ => cases v' <;> first | rfl | exact equal
      | _ => exact equal

end Value.Alike

/-! ## Alike heaps -/

/-- Slots of the same name with alike values. -/
def Renaming.Slot (ρ : Renaming) (s t : String × Value) : Prop := s.1 = t.1 ∧ s.2.Alike ρ t.2

/-- Frames with the same names in the same order, alike values and paired parents. -/
structure Frame.Alike (ρ : Renaming) (a b : Frame) : Prop where
  parent : Option.Rel ρ.frame a.parent b.parent
  names : a.names = b.names
  get? (name : String) : Option.Rel (Value.Alike ρ) (a.get? name) (b.get? name)

/-- The same primitive, or closures that differ in addresses only. -/
inductive Procedure.Alike (ρ : Renaming) : Procedure → Procedure → Prop where
  | closure {c d : Closure} : c.formals = d.formals → c.body.Alike ρ d.body → ρ.frame c.env d.env →
      c.name = d.name → Alike ρ (.closure c) (.closure d)
  | primitive {name : String} {p : Primitive} : Alike ρ (.primitive name p) (.primitive name p)

/-- At paired addresses there are alike frames and alike procedures.  Parents are older than their frames
in both heaps. -/
structure Heap.Alike (ρ : Renaming) (heap heap' : Heap) : Prop where
  frame {f f' : FrameId} : ρ.frame f f' → ∃ a b, heap.frames[f]? = some a ∧
    heap'.frames[f']? = some b ∧ a.Alike ρ b
  procedure {id id' : ProcedureId} : ρ.procedure id id' → ∃ p q, heap.procedures[id]? = some p ∧
    heap'.procedures[id']? = some q ∧ p.Alike ρ q
  older {f f' parent : FrameId} : ρ.frame f f' → heap.parent? f = some parent → parent < f
  older' {f f' parent : FrameId} : ρ.frame f f' → heap'.parent? f' = some parent → parent < f'

namespace Heap.Alike

variable {f f' : FrameId} {id id' : ProcedureId} {v w : Value}

/-- Frames that stand for one another exist. -/
theorem frame_lt (alike : heap.Alike ρ heap') (h : ρ.frame f f') :
    f < heap.frames.size ∧ f' < heap'.frames.size := by
  obtain ⟨a, b, ha, hb, _⟩ := alike.frame h
  exact ⟨(Array.getElem?_eq_some_iff.mp ha).1, (Array.getElem?_eq_some_iff.mp hb).1⟩

/-- Procedures that stand for one another exist. -/
theorem procedure_lt (alike : heap.Alike ρ heap') (h : ρ.procedure id id') :
    id < heap.procedures.size ∧ id' < heap'.procedures.size := by
  obtain ⟨p, q, hp, hq, _⟩ := alike.procedure h
  exact ⟨(Array.getElem?_eq_some_iff.mp hp).1, (Array.getElem?_eq_some_iff.mp hq).1⟩

/-! ### Frames -/

/-- The parents of frames that stand for one another do so too, where there are any. -/
theorem parent? (alike : heap.Alike ρ heap') (h : ρ.frame f f') :
    Option.Rel ρ.frame (heap.parent? f) (heap'.parent? f') := by
  obtain ⟨a, b, ha, hb, hab⟩ := alike.frame h
  simp only [Heap.parent?, ha, hb, Option.bind_some]
  exact hab.parent

/-- Frames that stand for one another hold alike values under the same names. -/
theorem get? (alike : heap.Alike ρ heap') (h : ρ.frame f f') (name : String) :
    Option.Rel (Value.Alike ρ) (heap.get? f name) (heap'.get? f' name) := by
  obtain ⟨a, b, ha, hb, hab⟩ := alike.frame h
  simp only [Heap.get?, ha, hb, Option.bind_some]
  exact hab.get? name

theorem isSome_eq {α β : Type} {R : α → β → Prop} {x : Option α} {y : Option β}
    (h : Option.Rel R x y) : x.isSome = y.isSome := by
  cases h <;> rfl

/-- Frames that stand for one another hold the same names. -/
theorem holds_eq (alike : heap.Alike ρ heap') (h : ρ.frame f f') (name : String) :
    heap.holds f name = heap'.holds f' name :=
  isSome_eq (alike.get? h name)

/-- Both chains end where there is no parent, however far they may be walked. -/
theorem chainWithin (alike : heap.Alike ρ heap') (h : ρ.frame f f') {fuel fuel' : Nat}
    (enough : f < fuel) (enough' : f' < fuel') :
    List.Forall₂ ρ.frame (heap.chainWithin fuel f) (heap'.chainWithin fuel' f') := by
  induction fuel generalizing f f' fuel' with
  | zero => exact absurd enough (Nat.not_lt_zero f)
  | succ fuel ih =>
      obtain ⟨fuel', rfl⟩ := Nat.exists_eq_succ_of_ne_zero (Nat.ne_of_gt (Nat.zero_lt_of_lt enough'))
      obtain ⟨lt, lt'⟩ := alike.frame_lt h
      rw [chainWithin_succ lt, chainWithin_succ lt']
      refine .cons h ?_
      have older : ∀ parent, heap.parent? f = some parent → parent < f := fun _ => alike.older h
      have older' : ∀ parent, heap'.parent? f' = some parent → parent < f' := fun _ => alike.older' h
      have parents := alike.parent? h
      generalize heap.parent? f = parent at parents older ⊢
      generalize heap'.parent? f' = parent' at parents older' ⊢
      cases parents with
      | none => exact .nil
      | some hp =>
          have lt := older _ rfl
          have lt' := older' _ rfl
          exact ih hp (Nat.lt_of_lt_of_le lt (Nat.le_of_lt_succ enough))
            (Nat.lt_of_lt_of_le lt' (Nat.le_of_lt_succ enough'))

/-- The chains of frames that stand for one another do so frame by frame. -/
theorem chain (alike : heap.Alike ρ heap') (h : ρ.frame f f') :
    List.Forall₂ ρ.frame (heap.chain f) (heap'.chain f') :=
  alike.chainWithin h (Nat.lt_succ_self f) (Nat.lt_succ_self f')

/-- The chain of a frame with a partner is its whole walk outward. -/
theorem walk_chainWithin (alike : heap.Alike ρ heap') (h : ρ.frame f f') {fuel : Nat}
    (enough : f < fuel) : heap.Walk f (heap.chainWithin fuel f) := by
  induction fuel generalizing f f' with
  | zero => exact absurd enough (Nat.not_lt_zero f)
  | succ fuel ih =>
      have lt := (alike.frame_lt h).1
      rw [chainWithin_succ lt]
      have parents := alike.parent? h
      cases hp : heap.parent? f with
      | none => exact .root lt hp
      | some parent =>
          rw [hp] at parents
          have older := Nat.lt_of_lt_of_le (alike.older h hp) (Nat.le_of_lt_succ enough)
          generalize heap'.parent? f' = parent' at parents
          cases parents with
          | some paired => exact .outward hp (ih paired older)

/-- Frames that stand for one another are equally deep. -/
theorem depth_eq (alike : heap.Alike ρ heap') (h : ρ.frame f f') : heap.depth f = heap'.depth f' := by
  rw [depth_eq_chain_length, depth_eq_chain_length]
  exact (alike.chain h).length_eq

/-- A name is found in frames that stand for one another. -/
theorem find? (alike : heap.Alike ρ heap') (h : ρ.frame f f') (name : String) :
    Option.Rel ρ.frame (heap.find? f name) (heap'.find? f' name) := by
  have chains := alike.chain h
  rw [find?_eq_chain_find?, find?_eq_chain_find?]
  generalize heap.chain f = frames at chains ⊢
  generalize heap'.chain f' = frames' at chains ⊢
  induction chains with
  | nil => exact .none
  | cons h _ ih =>
      simp only [List.find?_cons, alike.holds_eq h name]
      split
      · exact .some h
      · exact ih

/-- To look up a name ends alike. -/
theorem lookup (alike : heap.Alike ρ heap') (h : ρ.frame f f') (name : String) :
    Agree (fun e e' => e = e') (Value.Alike ρ) (heap.lookup f name) (heap'.lookup f' name) := by
  have unbound : Agree (ε := EvalError) (fun e e' => e = e') (Value.Alike ρ)
      (.error (.unbound name)) (.error (.unbound name)) := .error rfl
  have found := alike.find? h name
  simp only [Heap.lookup]
  generalize heap.find? f name = g at found ⊢
  generalize heap'.find? f' name = g' at found ⊢
  cases found with
  | none => exact unbound
  | @some g g' h =>
      have value := alike.get? h name
      simp only [Option.bind_some]
      generalize heap.get? g name = v at value ⊢
      generalize heap'.get? g' name = w at value ⊢
      cases value with
      | none => exact unbound
      | @some v w h =>
          cases h with
          | flat items other =>
              cases v with
              | unassigned => exact .error rfl
              | procedure id => exact absurd rfl (other id)
              | list _ | array _ => cases items
              | _ => exact .ok (.flat rfl nofun)
          | procedure h => exact .ok (.procedure h)
          | list h => exact .ok (.list h)
          | array h => exact .ok (.array h)

/-! ### Procedures and texts -/

/-- Alike values are applied as alike procedures. -/
theorem procedure? (alike : heap.Alike ρ heap') (h : v.Alike ρ w) :
    Option.Rel (Procedure.Alike ρ) (heap.procedure? v) (heap'.procedure? w) := by
  cases h with
  | procedure h =>
      obtain ⟨p, q, hp, hq, hpq⟩ := alike.procedure h
      simp only [Heap.procedure?, hp, hq]
      exact .some hpq
  | @flat v _ other =>
      cases v with
      | procedure id => exact absurd rfl (other id)
      | _ => exact .none
  | _ => exact .none

/-- Where procedures are alike, so is every text that is made of one without looking at its frame or its
body. -/
theorem procedureText (alike : heap.Alike ρ heap') (h : ρ.procedure id id')
    {text : Procedure → String}
    (closures : ∀ c d : Closure, c.formals = d.formals → c.name = d.name →
      text (.closure c) = text (.closure d)) :
    (heap.procedures[id]?.map text).getD "" = (heap'.procedures[id']?.map text).getD "" := by
  obtain ⟨p, q, hp, hq, hpq⟩ := alike.procedure h
  simp only [hp, hq, Option.map_some, Option.getD_some]
  cases hpq with
  | closure formals _ _ name => exact closures _ _ formals name
  | primitive => rfl

end Heap.Alike

/-! ## Texts -/

/-- Paired procedures have the same texts. -/
structure Heap.SameTexts (ρ : Renaming) (heap heap' : Heap) : Prop where
  inspected {id id' : ProcedureId} : ρ.procedure id id' →
    (heap.procedures[id]?.map Value.inspectProcedure).getD "" =
      (heap'.procedures[id']?.map Value.inspectProcedure).getD ""
  displayed {id id' : ProcedureId} : ρ.procedure id id' →
    (heap.procedures[id]?.map Value.displayProcedure).getD "" =
      (heap'.procedures[id']?.map Value.displayProcedure).getD ""

/-- In alike heaps alike procedures have the same texts. -/
theorem Heap.Alike.sameTexts (alike : heap.Alike ρ heap') : heap.SameTexts ρ heap' where
  inspected h := alike.procedureText h fun c d formals name => by
    simp only [Value.inspectProcedure, formals, name]
  displayed h := alike.procedureText h fun c d formals name => by
    simp only [Value.displayProcedure, formals, name]

namespace Heap.SameTexts

variable {v w : Value}

/-- Alike values have the same diagnostic form, in front of any text. -/
theorem inspectBefore (texts : heap.SameTexts ρ heap') (h : v.Alike ρ w) (rest : List Char) :
    Value.inspectBefore heap v rest = Value.inspectBefore heap' w rest := by
  have rows : ∀ {vs ws : List Value}, List.Forall₂ (fun v w => ∃ _ : Value.Alike ρ v w,
      ∀ rest, Value.inspectBefore heap v rest = Value.inspectBefore heap' w rest) vs ws →
      ∀ rest, Value.inspectItemsBefore heap vs rest = Value.inspectItemsBefore heap' ws rest := by
    intro vs ws h
    induction h with
    | nil => exact fun _ => rfl
    | cons h hs ih =>
        obtain ⟨_, same⟩ := h
        intro rest
        cases hs with
        | nil => simp only [Value.inspectItemsBefore, same]
        | cons _ _ => simp only [Value.inspectItemsBefore, same, ih]
  induction h using Value.Alike.induct generalizing rest with
  | procedure h => exact congrArg (fun text => text.toList ++ rest) (texts.inspected h)
  | @list vs ws h ih =>
      have ends : (if vs.length = 1 then [','] else []) ++ ')' :: rest =
          (if ws.length = 1 then [','] else []) ++ ')' :: rest := by rw [h.length_eq]
      exact congrArg ('(' :: ·) ((rows ih _).trans (congrArg (Value.inspectItemsBefore heap' ws) ends))
  | array h ih => exact congrArg ('[' :: ·) (rows ih _)
  | @flat v items other =>
      cases v with
      | procedure id => exact absurd rfl (other id)
      | list _ | array _ => cases items
      | _ => rfl

/-- Alike values have the same diagnostic form, or none. -/
theorem inspect? (texts : heap.SameTexts ρ heap') (h : v.Alike ρ w) :
    v.inspect? heap = w.inspect? heap' := by
  simp only [Value.inspect?, Value.guarded, Value.inspect, texts.inspectBefore h, h.isUnwritable_eq]

/-- A user sees alike values in the same form. -/
theorem display? (texts : heap.SameTexts ρ heap') (h : v.Alike ρ w) :
    v.display? heap = w.display? heap' := by
  have inspect : v.inspect heap = w.inspect heap' := by
    rw [Value.inspect, Value.inspect, texts.inspectBefore h]
  simp only [Value.display?, Value.guarded, h.isUnwritable_eq]
  have display : v.display heap = w.display heap' := by
    cases h with
    | procedure h => exact texts.displayed h
    | list _ => simp only [Value.display, inspect]
    | array _ => simp only [Value.display, inspect]
    | @flat v items other =>
        cases v with
        | procedure id => exact absurd rfl (other id)
        | list _ | array _ => cases items
        | _ => simp only [Value.display, inspect]
  rw [display]

/-- Error messages quote alike values in the same words. -/
theorem describe (texts : heap.SameTexts ρ heap') (h : v.Alike ρ w) :
    v.describe heap = w.describe heap' := by
  rcases h.toExpr_cases with ⟨e, he, he'⟩ | ⟨part, part', he, he'⟩
  · simp only [Value.describe, he, he']
  · simp only [Value.describe, he, he', texts.inspect? h]

/-! ### Primitives -/

/-- Alike arguments are numbers together, and the same ones. -/
theorem numbers_eq (texts : heap.SameTexts ρ heap') (p : Primitive) {vs ws : List Value}
    (h : List.Forall₂ (Value.Alike ρ) vs ws) : p.numbers heap vs = p.numbers heap' ws := by
  induction h with
  | nil => rfl
  | @cons v w _ _ hv _ ih =>
      have shown := texts.display? hv
      cases hv with
      | @flat v _ _ => cases v <;> simp only [Primitive.numbers, ih, shown]
      | _ => simp only [Primitive.numbers, shown]

/-- Alike arguments are integers together, and the same ones. -/
theorem integers_eq (texts : heap.SameTexts ρ heap') (p : Primitive) {vs ws : List Value}
    (h : List.Forall₂ (Value.Alike ρ) vs ws) : p.integers heap vs = p.integers heap' ws := by
  induction h with
  | nil => rfl
  | @cons v w _ _ hv _ ih =>
      have shown := texts.display? hv
      cases hv with
      | @flat v _ _ =>
          cases v with
          | number n => cases n <;> simp only [Primitive.integers, ih, shown]
          | _ => simp only [Primitive.integers, shown]
      | _ => simp only [Primitive.integers, shown]

/-- Primitives on values of any kind do not tell alike values apart. -/
theorem onValues_eq (p : Primitive) {vs ws : List Value}
    (h : List.Forall₂ (Value.Alike ρ) vs ws) : p.onValues vs = p.onValues ws := by
  rcases h with _ | ⟨h, _ | ⟨h', _ | _⟩⟩
  · cases p <;> rfl
  · have isTrue := h.isTrue_eq
    cases h with
    | flat _ _ => rfl
    | _ => cases p <;> rfl
  · have same := h.same_eq h'
    cases p with
    | same => simp only [Primitive.onValues, same]
    | _ => rfl
  · cases p <;> rfl

/-- A primitive answers alike arguments with the same scalar or the same error. -/
theorem primitive_eq (texts : heap.SameTexts ρ heap') (p : Primitive) {vs ws : List Value}
    (h : List.Forall₂ (Value.Alike ρ) vs ws) : p.apply heap vs = p.apply heap' ws := by
  simp only [Primitive.apply, Primitive.compute, h.length_eq, texts.numbers_eq p h,
    texts.integers_eq p h, onValues_eq p h]

end Heap.SameTexts

/-! ## More pairs -/

/-- What one renaming pairs, the other one pairs too. -/
structure Renaming.Within (ρ σ : Renaming) : Prop where
  frame {f f' : FrameId} : ρ.frame f f' → σ.frame f f'
  procedure {id id' : ProcedureId} : ρ.procedure id id' → σ.procedure id id'

theorem Renaming.Within.refl (ρ : Renaming) : ρ.Within ρ := ⟨id, id⟩

theorem Renaming.Within.trans {τ : Renaming} (first : ρ.Within σ) (second : σ.Within τ) :
    ρ.Within τ :=
  ⟨fun h => second.frame (first.frame h), fun h => second.procedure (first.procedure h)⟩

/-- Alike values stay alike when a renaming grows. -/
theorem Value.Alike.mono {v w : Value} (h : v.Alike ρ w) (within : ρ.Within σ) : v.Alike σ w := by
  induction h using Value.Alike.induct with
  | procedure h => exact .procedure (within.procedure h)
  | list _ ih => exact .list (ih.imp fun _ _ ⟨_, h⟩ => h)
  | array _ ih => exact .array (ih.imp fun _ _ ⟨_, h⟩ => h)
  | flat items other => exact .flat items other

theorem rel_imp {α β : Type} {R S : α → β → Prop} {x : Option α} {y : Option β}
    (h : Option.Rel R x y) (imp : ∀ a b, R a b → S a b) : Option.Rel S x y := by
  cases h with
  | none => exact .none
  | some h => exact .some (imp _ _ h)

/-- Alike frames stay alike when a renaming grows. -/
theorem Frame.Alike.mono {a b : Frame} (h : a.Alike ρ b) (within : ρ.Within σ) : a.Alike σ b where
  parent := rel_imp h.parent fun _ _ => within.frame
  names := h.names
  get? name := rel_imp (h.get? name) fun _ _ hv => hv.mono within

/-- Rows of alike slots hold alike values under each name. -/
theorem Renaming.Slot.lookup {slots slots' : List (String × Value)} (h : List.Forall₂ ρ.Slot slots slots')
    (name : String) : Option.Rel (Value.Alike ρ) (slots.lookup name) (slots'.lookup name) := by
  induction h with
  | nil => exact .none
  | @cons s t slots slots' h _ ih =>
      obtain ⟨key, v⟩ := s
      obtain ⟨key', w⟩ := t
      obtain ⟨rfl, hv⟩ := h
      simp only [List.lookup_cons]
      split
      · exact .some hv
      · exact ih

/-- Frames of alike slots. -/
theorem Frame.alike_of_slots {parent parent' : Option FrameId} {slots slots' : List (String × Value)}
    (hparent : Option.Rel ρ.frame parent parent') (hslots : List.Forall₂ ρ.Slot slots slots') :
    (Frame.mk parent slots).Alike ρ ⟨parent', slots'⟩ where
  parent := hparent
  names := by
    have names : List.Forall₂ (fun s t => s = t) (slots.map (·.1)) (slots'.map (·.1)) := by
      simp only [List.forall₂_map_left_iff, List.forall₂_map_right_iff]
      exact hslots.imp fun _ _ slot => slot.1
    exact List.forall₂_eq_eq_eq ▸ names
  get? name := Renaming.Slot.lookup hslots name

/-- Written frames stay alike. -/
theorem Frame.Alike.set {a b : Frame} (h : a.Alike ρ b) (name : String) {v w : Value}
    (hv : v.Alike ρ w) : (a.set name v).Alike ρ (b.set name w) where
  parent := h.parent
  names := by rw [Frame.names_set, Frame.names_set, h.names]
  get? other := by
    rw [Frame.get?_set, Frame.get?_set]
    split
    · exact .some hv
    · exact h.get? other

/-- Alike procedures stay alike when a renaming grows. -/
theorem Procedure.Alike.mono {p q : Procedure} (h : p.Alike ρ q) (within : ρ.Within σ) :
    p.Alike σ q := by
  cases h with
  | closure formals body env name => exact .closure formals (body.mono within) (within.frame env) name
  | primitive => exact .primitive

namespace Renaming

/-- One pair more. -/
def extended (R : Nat → Nat → Prop) (a b : Nat) (x y : Nat) : Prop := R x y ∨ x = a ∧ y = b

/-- A pairing of addresses that have no partner yet leaves every partner the only one. -/
theorem biUnique_extended {R : Nat → Nat → Prop} (unique : Relator.BiUnique R) {a b : Nat}
    (new : ∀ y, ¬R a y) (new' : ∀ x, ¬R x b) : Relator.BiUnique (extended R a b) := by
  constructor
  · rintro x y z (hx | ⟨rfl, rfl⟩) (hy | ⟨rfl, eq⟩)
    · exact unique.1 hx hy
    · exact absurd (eq ▸ hx) (new' x)
    · exact absurd hy (new' y)
    · rfl
  · rintro x y z (hx | ⟨rfl, rfl⟩) (hy | ⟨eq, rfl⟩)
    · exact unique.2 hx hy
    · exact absurd (eq ▸ hx) (new y)
    · exact absurd hy (new z)
    · rfl

/-- The renaming that also pairs the next frames of two heaps. -/
def addFrame (ρ : Renaming) (heap heap' : Heap) (alike : heap.Alike ρ heap') : Renaming where
  frame := extended ρ.frame heap.frames.size heap'.frames.size
  procedure := ρ.procedure
  frame_unique := biUnique_extended ρ.frame_unique
    (fun _ h => Nat.lt_irrefl _ (alike.frame_lt h).1) fun _ h => Nat.lt_irrefl _ (alike.frame_lt h).2
  procedure_unique := ρ.procedure_unique

/-- The renaming that also pairs the next procedures of two heaps. -/
def addProcedure (ρ : Renaming) (heap heap' : Heap) (alike : heap.Alike ρ heap') : Renaming where
  frame := ρ.frame
  procedure := extended ρ.procedure heap.procedures.size heap'.procedures.size
  frame_unique := ρ.frame_unique
  procedure_unique := biUnique_extended ρ.procedure_unique
    (fun _ h => Nat.lt_irrefl _ (alike.procedure_lt h).1)
    fun _ h => Nat.lt_irrefl _ (alike.procedure_lt h).2

theorem within_addFrame (alike : heap.Alike ρ heap') : ρ.Within (ρ.addFrame heap heap' alike) :=
  ⟨Or.inl, id⟩

theorem within_addProcedure (alike : heap.Alike ρ heap') :
    ρ.Within (ρ.addProcedure heap heap' alike) :=
  ⟨id, Or.inl⟩

end Renaming

/-! ## Changes -/

namespace Heap.Alike

variable {f f' : FrameId} {id id' : ProcedureId} {v w : Value}

/-- New frames inside frames that stand for one another, with alike slots, are paired and keep heaps alike. -/
theorem newFrame (alike : heap.Alike ρ heap') {parent parent' : Option FrameId}
    (hparent : Option.Rel ρ.frame parent parent') {slots slots' : List (String × Value)}
    (hslots : List.Forall₂ ρ.Slot slots slots') :
    (heap.newFrame parent slots).2.Alike (ρ.addFrame heap heap' alike)
      (heap'.newFrame parent' slots').2 where
  frame {g g'} h := by
    have within := Renaming.within_addFrame alike
    rcases h with h | ⟨rfl, rfl⟩
    · obtain ⟨a, b, ha, hb, hab⟩ := alike.frame h
      obtain ⟨lt, lt'⟩ := alike.frame_lt h
      rw [getElem?_frames_newFrame lt, getElem?_frames_newFrame lt']
      exact ⟨a, b, ha, hb, hab.mono within⟩
    · have parents := rel_imp hparent fun _ _ => within.frame
      have slots := hslots.imp fun _ _ slot => And.intro slot.1 (slot.2.mono within)
      refine ⟨_, _, ?_, ?_, Frame.alike_of_slots parents slots⟩
      · simp [Heap.newFrame]
      · simp [Heap.newFrame]
  procedure h := by
    obtain ⟨p, q, hp, hq, hpq⟩ := alike.procedure h
    exact ⟨p, q, hp, hq, hpq.mono (Renaming.within_addFrame alike)⟩
  older {g g' outer} h houter := by
    rw [parent?_newFrame] at houter
    rcases h with h | ⟨rfl, rfl⟩
    · rw [if_neg (Nat.ne_of_lt (alike.frame_lt h).1)] at houter
      exact alike.older h houter
    · rw [if_pos rfl] at houter
      cases hparent with
      | none => cases houter
      | some hf =>
          cases houter
          exact (alike.frame_lt hf).1
  older' {g g' outer} h houter := by
    rw [parent?_newFrame] at houter
    rcases h with h | ⟨rfl, rfl⟩
    · rw [if_neg (Nat.ne_of_lt (alike.frame_lt h).2)] at houter
      exact alike.older' h houter
    · rw [if_pos rfl] at houter
      cases hparent with
      | none => cases houter
      | some hf =>
          cases houter
          exact (alike.frame_lt hf).2

/-- New procedures that are alike are paired and keep heaps alike. -/
theorem newProcedure (alike : heap.Alike ρ heap') {p q : Procedure} (h : p.Alike ρ q) :
    (heap.newProcedure p).2.Alike (ρ.addProcedure heap heap' alike) (heap'.newProcedure q).2 where
  frame h := by
    obtain ⟨a, b, ha, hb, hab⟩ := alike.frame h
    exact ⟨a, b, ha, hb, hab.mono (Renaming.within_addProcedure alike)⟩
  procedure {i i'} hi := by
    have within := Renaming.within_addProcedure alike
    simp only [Heap.newProcedure, Array.getElem?_push]
    rcases hi with hi | ⟨rfl, rfl⟩
    · obtain ⟨p, q, hp, hq, hpq⟩ := alike.procedure hi
      obtain ⟨lt, lt'⟩ := alike.procedure_lt hi
      rw [if_neg (Nat.ne_of_lt lt), if_neg (Nat.ne_of_lt lt')]
      exact ⟨p, q, hp, hq, hpq.mono within⟩
    · rw [if_pos rfl, if_pos rfl]
      exact ⟨_, _, rfl, rfl, h.mono within⟩
  older h := alike.older h
  older' h := alike.older' h

/-- Writes of alike values to frames that stand for one another keep heaps alike. -/
theorem write (alike : heap.Alike ρ heap') (hf : ρ.frame f f') (name : String) (hv : v.Alike ρ w) :
    (heap.write f name v).Alike ρ (heap'.write f' name w) where
  frame {g g'} h := by
    obtain ⟨a, b, ha, hb, hab⟩ := alike.frame h
    have same : f = g ↔ f' = g' := Relator.rel_eq ρ.frame_unique hf h
    simp only [Heap.write, Array.getElem?_modify, ha, hb]
    by_cases eq : f = g
    · rw [if_pos eq, if_pos (same.mp eq)]
      exact ⟨_, _, rfl, rfl, hab.set name hv⟩
    · rw [if_neg eq, if_neg fun eq' => eq (same.mpr eq')]
      exact ⟨a, b, rfl, rfl, hab⟩
  procedure h := alike.procedure h
  older h hparent := alike.older h (by rwa [parent?_write] at hparent)
  older' h hparent := alike.older' h (by rwa [parent?_write] at hparent)

/-- Where nothing with a partner has changed, heaps stay alike. -/
theorem congr {after : Heap} (alike : heap.Alike ρ heap')
    (frames : ∀ f f', ρ.frame f f' → after.frames[f]? = heap.frames[f]?)
    (procedures : ∀ id id', ρ.procedure id id' → after.procedures[id]? = heap.procedures[id]?) :
    after.Alike ρ heap' where
  frame h := by
    rw [frames _ _ h]
    exact alike.frame h
  procedure h := by
    rw [procedures _ _ h]
    exact alike.procedure h
  older h hparent := alike.older h (by rwa [parent?_congr (frames _ _ h)] at hparent)
  older' h := alike.older' h

/-- To name closures that stand for one another keeps heaps alike. -/
theorem nameClosure (alike : heap.Alike ρ heap') (hid : ρ.procedure id id') (name : String) :
    (heap.nameClosure id name).Alike ρ (heap'.nameClosure id' name) where
  frame h := alike.frame h
  procedure {i i'} h := by
    obtain ⟨p, q, hp, hq, hpq⟩ := alike.procedure h
    have same : id = i ↔ id' = i' := Relator.rel_eq ρ.procedure_unique hid h
    simp only [Heap.nameClosure, Array.getElem?_modify, hp, hq]
    by_cases eq : id = i
    · rw [if_pos eq, if_pos (same.mp eq)]
      cases hpq with
      | closure formals body env _ => exact ⟨_, _, rfl, rfl, .closure formals body env rfl⟩
      | primitive => exact ⟨_, _, rfl, rfl, .primitive⟩
    · rw [if_neg eq, if_neg fun eq' => eq (same.mpr eq')]
      exact ⟨p, q, rfl, rfl, hpq⟩
  older h := alike.older h
  older' h := alike.older' h

end Heap.Alike

end ScopedLisp
