import ScopedLisp.Proofs.Evaluation.Territory
import ScopedLisp.Proofs.Heap.Reachable

/-!
# ScopedLisp.Proofs.Evaluation.Assignment

Names that wait for their values do not get out.  While a `letrec` runs, a frame whose names are
declared and not yet assigned is in the heap, and arbitrary code runs in it.  Still, where all that a
frame leads to is assigned before code runs in it, it is so afterwards, and so is all that the value
leads to.

The two halves are different arguments.

* A *value* is returned only when every frame made for it is assigned.  What it leads to is in the
  region of the frame, as it was or made since; that region is a territory, and a computation that
  ends with a value leaves no unassigned slot in a new frame (`assigned_value`).
* The *frame* is written by definitions in it alone, with values that were returned.  What else
  runs, runs in frames of its own and spares all others, even if it fails midway
  (`tidy_perform`).
-/

namespace ScopedLisp

open Evaluation

/-! ## Values -/

namespace Territory

/-- The region of a frame: what it leads to, and what is yet to be made. -/
def region (heap : Heap) (f : FrameId) : Territory where
  frame g := heap.Reachable (· = f) g ∨ heap.frames.size ≤ g
  value v := v ≠ .unassigned ∧
    ∀ env, heap.envOf? v = some env → heap.Reachable (· = f) env ∨ heap.frames.size ≤ env
  codes := .all
  scalar {v} h := by
    refine ⟨?_, fun env henv => ?_⟩
    · rintro rfl
      exact h
    · obtain ⟨id, c, rfl, _⟩ := Heap.envOf?_eq_some_iff.mp henv
      exact h.elim
  proper h := h.1

variable {heap after : Heap} {f : FrameId} {v : Value}

/-- What a frame leads to is closed: from there one gets nowhere else. -/
theorem closed_region (heap : Heap) (f : FrameId) : (region heap f).Closed heap where
  parent hf hparent := by
    rcases hf with reachable | le
    · exact Or.inl (.parent reachable hparent)
    · exact absurd (Heap.lt_size_of_parent? hparent) (Nat.not_lt.mpr le)
  slot {g name w} hf hget := by
    rcases hf with reachable | le
    · by_cases h : w = .unassigned
      · exact Or.inl h
      · exact Or.inr ⟨h, fun env henv => Or.inl (.closure reachable hget henv)⟩
    · exact absurd (Heap.lt_size_of_get? hget) (Nat.not_lt.mpr le)
  closure hv hc := ⟨hv.2 _ (Heap.envOf?_eq_some_iff.mpr ⟨_, _, rfl, hc, rfl⟩), trivial⟩
  newFrame le := Or.inr le
  newProcedure le := by
    refine ⟨nofun, fun env henv => ?_⟩
    obtain ⟨id, c, eq, hc, _⟩ := Heap.envOf?_eq_some_iff.mp henv
    cases eq
    exact absurd (Array.getElem?_eq_some_iff.mp hc).1 (Nat.not_lt.mpr le)

/-- What leads nowhere else leads to the territory only. -/
theorem Closed.reachable {t : Territory} {seeds : FrameId → Prop} (closed : t.Closed heap)
    (inside : ∀ g, seeds g → t.frame g) {g : FrameId} (h : heap.Reachable seeds g) : t.frame g := by
  induction h with
  | seed h => exact inside _ h
  | parent _ hparent ih => exact closed.parent ih hparent
  | closure _ hget henv ih =>
      obtain ⟨id, c, rfl, hc, rfl⟩ := Heap.envOf?_eq_some_iff.mp henv
      exact (closed.closure ((closed.slot ih hget).resolve_left nofun) hc).1

end Territory

/-- **Values are assigned**: what is returned from a frame that leads to assigned slots only leads to
assigned slots only, together with the frame. -/
theorem assigned_value {heap after : Heap} {env : FrameId} (sound : heap.Sound)
    (lt : env < heap.frames.size) (assigned : heap.Assigned (· = env)) {levels : Nat}
    {code v : Value} (h : Call.perform levels (.eval code env) heap = .ok v after) :
    (after.Assigned fun f => f = env ∨ after.envOf? v = some f) ∧ v ≠ .unassigned ∧ after.Knows v := by
  have permits : (Territory.region heap env).Permits ⟨levels, .eval code env, heap⟩ :=
    ⟨Territory.kept_self sound (Territory.closed_region heap env), trivial, Or.inl (.seed rfl), lt⟩
  have ends := permits.ends
  simp only [Call.Run.result, h] at ends
  obtain ⟨kept, ⟨growth, settles⟩, hv, known⟩ := ends
  have inside : ∀ f, f = env ∨ after.envOf? v = some f → (Territory.region heap env).frame f := by
    rintro f (rfl | henv)
    · exact Or.inl (.seed rfl)
    · obtain ⟨id, c, rfl, hc, rfl⟩ := Heap.envOf?_eq_some_iff.mp henv
      exact (kept.closed.closure hv hc).1
  have exist : ∀ f, f = env ∨ after.envOf? v = some f → f < after.frames.size := by
    rintro f (rfl | henv)
    · exact Nat.lt_of_lt_of_le lt growth.frames_le
    · obtain ⟨id, c, rfl, hc, rfl⟩ := Heap.envOf?_eq_some_iff.mp henv
      exact kept.sound.env_lt hc
  refine ⟨⟨kept.sound.reachable_lt exist, fun {f name w} reachable hget => ?_⟩, hv.1, known⟩
  refine ⟨?_, kept.sound.knows hget⟩
  rintro rfl
  -- an old frame of the region had an unassigned slot before, and a new one has none
  rcases kept.closed.reachable inside reachable with old | new
  · exact (assigned.slot old (growth.unassigned (assigned.lt old) hget)).1 rfl
  · exact settles f name new hget

/-! ## Frames -/

/-- No procedure of a host, and the old frames are spared. -/
def Spares (before heap : Heap) : Prop := heap.Hostless ∧ before.Spared heap

/-- What happens in new frames spares the old ones. -/
theorem confinement_spares (before : Heap) :
    Confinement (Spares before) fun f => before.frames.size ≤ f where
  hostless h := h.1
  newFrame parent slots h := ⟨h.1, h.2.trans (Heap.spared_newFrame _ parent slots)⟩
  own_newFrame {heap} h := by
    by_contra new
    -- the frame at this address would have been there before
    have lt := h.2.lt (Nat.lt_of_not_le new)
    exact Nat.lt_irrefl _ lt
  newClosure c h := ⟨h.1.newClosure c, h.2.trans (Heap.spared_newClosure _ c)⟩
  nameClosure id name h := ⟨h.1.nameClosure id name, h.2.trans (Heap.spared_nameClosure _ id name)⟩
  write name v new h := ⟨h.1, h.2.write new name v⟩

/-- A sound heap with a frame that leads to assigned slots only. -/
structure Tidy (env : FrameId) (heap : Heap) : Prop where
  sound : heap.Sound
  lt : env < heap.frames.size
  assigned : heap.Assigned (· = env)

/-- From a tidy heap the frame leads to assigned slots only, however the computation ends. -/
def KeepsAssigned {α : Type} (env : FrameId) (x : Evaluation α) : Prop :=
  ∀ heap, Tidy env heap → (heapAfter x heap).Assigned (· = env)

section Forms

variable {α β : Type} {env : FrameId} {levels : Nat}

theorem heapAfter_bind_of_ok {x : Evaluation α} {next : α → Evaluation β} {heap mid : Heap} {a : α}
    (h : x heap = .ok a mid) : heapAfter (x >>= next) heap = heapAfter (next a) mid := by
  simp only [heapAfter, Bind.bind, EStateM.bind, h]

theorem heapAfter_bind_of_error {x : Evaluation α} {next : α → Evaluation β} {heap after : Heap}
    {failure : Failure} (h : x heap = .error failure after) : heapAfter (x >>= next) heap = after := by
  simp only [heapAfter, Bind.bind, EStateM.bind, h]

theorem heapAfter_of_ok {x : Evaluation α} {heap after : Heap} {a : α} (h : x heap = .ok a after) :
    heapAfter x heap = after := by
  simp only [heapAfter, h]

theorem heapAfter_of_error {x : Evaluation α} {heap after : Heap} {failure : Failure}
    (h : x heap = .error failure after) : heapAfter x heap = after := by
  simp only [heapAfter, h]

theorem KeepsAssigned.of_keeps {x : Evaluation α} (hx : Keeps (Tidy env) x) : KeepsAssigned env x :=
  fun heap tidy => (hx heap tidy).assigned

/-- Up to the last part the frame has to be left tidy; the last one only keeps its slots assigned. -/
theorem KeepsAssigned.bind {x : Evaluation α} {next : α → Evaluation β} (hx : Keeps (Tidy env) x)
    (hnext : ∀ a, KeepsAssigned env (next a)) : KeepsAssigned env (x >>= next) := by
  intro heap tidy
  have kept := hx heap tidy
  cases hr : x heap with
  | ok a mid =>
      rw [heapAfter_of_ok hr] at kept
      rw [heapAfter_bind_of_ok hr]
      exact hnext a mid kept
  | error failure after =>
      rw [heapAfter_of_error hr] at kept
      rw [heapAfter_bind_of_error hr]
      exact kept.assigned

/-- What spares the old frames does not change what they lead to. -/
theorem KeepsAssigned.of_spares {x : Evaluation α} (hx : ∀ before, Keeps (Spares before) x) :
    KeepsAssigned env x := by
  intro heap tidy
  have spares := hx heap heap ⟨tidy.sound.hostless, .refl heap⟩
  exact tidy.assigned.of_spared spares.2

/-- Code in a new frame spares the old ones. -/
theorem spares_eval (before : Heap) {f : FrameId} (new : before.frames.size ≤ f) (e : Value) :
    Keeps (Spares before) (Call.perform levels (.eval e f)) :=
  (confinement_spares before).perform levels new

/-- To write a value that leads to assigned slots only. -/
theorem assigned_define {mid heap : Heap} {v : Value} (name : String)
    (assigned : mid.Assigned fun f => f = env ∨ mid.envOf? v = some f) (proper : v ≠ .unassigned)
    (known : mid.Knows v) (spared : mid.Spared heap) :
    (heapAfter (Evaluation.write env name v >>= fun _ => Pure.pure Value.nil) heap).Assigned
      (· = env) := by
  have assigned := assigned.of_spared spared
  rw [← spared.env known] at assigned
  exact assigned.write name proper fun id eq => Nat.lt_of_lt_of_le (known id eq) spared.procedures_le

/-- To name a value spares everything. -/
theorem spared_heapAfter_nameClosure (heap : Heap) (v : Value) (name : String) :
    heap.Spared (heapAfter (nameClosure v name) heap) := by
  cases v with
  | procedure id => exact Heap.spared_nameClosure heap id name
  | _ => exact .refl heap

variable (here : ∀ {c : Call}, c.frame? = some env → Keeps (Tidy env) (Call.perform levels c))

include here

/-- A definition writes a value that leads to assigned slots only. -/
theorem keepsAssigned_runDefine (operands : List Value) :
    KeepsAssigned env (Form.runDefine levels (Call.perform levels) operands env) := by
  refine KeepsAssigned.bind (Keeps.shaped levels _) fun definition heap tidy => ?_
  cases definition with
  | procedure name formals body =>
      -- the new closure leads to the frame itself
      have made := Heap.spared_newClosure heap ⟨formals, body, env, some name⟩
      refine assigned_define name ((tidy.assigned.of_spared made).mono ?_) nofun ?_ (.refl _)
      · rintro f (rfl | henv)
        · rfl
        · simpa [Heap.envOf?, Heap.procedure?, Heap.newProcedure, Procedure.env?] using henv.symm
      · rintro _ ⟨⟩
        simp [Heap.newProcedure]
  | value name expr =>
      have kept := here (c := .eval expr env) rfl heap tidy
      cases hv : Call.perform levels (.eval expr env) heap with
      | error failure after =>
          rw [heapAfter_of_error hv] at kept
          rw [heapAfter_bind_of_error hv]
          exact kept.assigned
      | ok v mid =>
          obtain ⟨assigned, proper, known⟩ := assigned_value tidy.sound tidy.lt tidy.assigned hv
          rw [heapAfter_bind_of_ok hv]
          split
          · have spared := spared_heapAfter_nameClosure mid v name
            cases v <;> exact assigned_define name assigned proper known spared
          · exact assigned_define name assigned proper known (.refl mid)

/-- The values of a `let` are evaluated in the frame; the rest happens in a new one. -/
theorem keepsAssigned_runLet (operands : List Value) :
    KeepsAssigned env (Form.runLet levels (Call.perform levels) operands env) := by
  refine .bind (Keeps.shaped levels _) fun ⟨bindings, body⟩ => ?_
  refine .bind (Keeps.evalEach _ fun e _ => here rfl) fun values => .of_spares fun before => ?_
  exact (confinement_spares before).enclosure.keeps_newFrame fun frame new => spares_eval before new body

omit here

/-- `let*` works in a new frame, so the old ones are spared. -/
theorem keepsAssigned_runLetStar (operands : List Value) :
    KeepsAssigned env (Form.runLetStar levels (Call.perform levels) operands env) :=
  .of_spares fun before => (confinement_spares before).enclosure.keeps_runLetStar
    (fun _ new e => spares_eval before new e) levels operands

/-- `letrec` works in a new frame too: none of its slots is in an old one. -/
theorem keepsAssigned_runLetrec (operands : List Value) :
    KeepsAssigned env (Form.runLetrec levels (Call.perform levels) operands env) :=
  .of_spares fun before => (confinement_spares before).enclosure.keeps_runLetrec
    (fun _ new e => spares_eval before new e) levels operands

include here

/-- However a form ends, the frame leads to assigned slots only. -/
theorem keepsAssigned_form (keyword : Keyword) (operands : List Value) :
    KeepsAssigned env (Form.run levels (Call.perform levels) keyword operands env) := by
  have calls : ∀ e, CodeSet.all.mem e → Keeps (Tidy env) (Call.perform levels (.eval e env)) :=
    fun e _ => here rfl
  have mem : ∀ e ∈ operands, CodeSet.all.mem e := fun _ _ => trivial
  cases keyword with
  | ifForm => exact .of_keeps (Enclosure.keeps_runIf calls levels mem)
  | defineForm => exact keepsAssigned_runDefine here operands
  | lambdaForm =>
      exact .of_spares fun before => (confinement_spares before).enclosure.keeps_runLambda levels operands
  | beginForm => exact .of_keeps (Enclosure.keeps_runBegin calls mem)
  | letForm => exact keepsAssigned_runLet here operands
  | letStarForm => exact keepsAssigned_runLetStar operands
  | letrecForm => exact keepsAssigned_runLetrec operands
  | andForm => exact .of_keeps (Enclosure.keeps_runAnd calls operands mem)
  | orForm => exact .of_keeps (Enclosure.keeps_runOr calls operands mem)
  | condForm => exact .of_keeps (Enclosure.keeps_runCond calls levels mem)

/-- Head and operands are evaluated in the frame; what is applied runs in a new one. -/
theorem keepsAssigned_evalItems (items : List Value) :
    KeepsAssigned env (Call.evalItems (Call.perform levels) items env) := by
  cases items with
  | nil => exact .of_keeps (Keeps.fail _)
  | cons head operands =>
      simp only [Call.evalItems]
      cases Keyword.ofHead? head with
      | some keyword => exact .of_keeps (here rfl)
      | none =>
          refine .bind (here rfl) fun procedure => ?_
          refine .bind (Keeps.evalEach operands fun e _ => here rfl) fun args => ?_
          exact .of_spares fun before => (confinement_spares before).perform levels trivial

/-- However evaluation ends, the frame leads to assigned slots only. -/
theorem keepsAssigned_evalCode (code : Value) :
    KeepsAssigned env (Call.evalCode (Call.perform levels) code env) := by
  cases code with
  | atom text =>
      refine .of_keeps ?_
      simp only [Call.evalCode, Call.evalAtom]
      cases Literal.ofText text with
      | oversized digits => exact Keeps.fail _
      | name => exact Keeps.query _
      | _ => exact Keeps.pure _
  | list items | array items => exact keepsAssigned_evalItems here items
  | _ => exact .of_keeps (Keeps.failShowing _ _)

end Forms

/-- **Frames stay assigned**: a frame that leads to assigned slots only does so after every call that
runs in it, however that ends. -/
theorem tidy_perform {env : FrameId} (levels : Nat) {c : Call} (hc : c.frame? = some env) :
    Keeps (Tidy env) (Call.perform levels c) := by
  induction levels generalizing c with
  | zero => exact Keeps.outOfDepth
  | succ levels ih =>
      intro heap tidy
      have permits := Territory.permits_everything tidy.sound (levels + 1) hc tidy.lt
      have kept := Territory.kept_heapAfter permits
      refine ⟨kept.sound, Nat.lt_of_lt_of_le tidy.lt kept.growth.frames_le, ?_⟩
      cases c with
      | eval code f =>
          cases hc
          exact keepsAssigned_evalCode ih code heap tidy
      | form keyword operands f =>
          cases hc
          exact keepsAssigned_form ih keyword operands heap tidy
      | apply procedure args f => cases hc
      | nested inner => exact (ih (c := inner) hc heap tidy).assigned

end ScopedLisp
