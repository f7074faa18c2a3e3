import ScopedLisp.Proofs.Evaluation.Scoping

/-!
# ScopedLisp.Proofs.Evaluation.Purity

Code without definitions is pure.  It makes frames, closures and slots, and so do the procedures that it
calls, which may hold definitions; but all that was there before is left as it was, the frame that the code
runs in among it, and the names of closures too.

What a first run leaves behind is therefore nothing that the frame leads to, and a second run from there
ends like the first one.
-/

namespace ScopedLisp

open Evaluation

namespace Heap

variable {base heap : Heap} {seeds : Address → Prop}

/-! ## What code without definitions leaves -/

/-- A heap that has come from `base` without any change of what was there. -/
structure Untouched (base heap : Heap) : Prop where
  hostless : heap.Hostless
  confined : Confined (fun _ => False) base heap

/-- What happens in new frames touches nothing.  A closure of a new frame is new itself. -/
theorem enclosure_untouched (complete : base.Complete base.Has) :
    Enclosure base.Untouched (base.frames.size ≤ ·) (base.frames.size ≤ ·) where
  hostless h := h.hostless
  own_of_new := id
  newFrame parent slots h := ⟨h.hostless, h.confined.newFrame parent slots⟩
  new_newFrame h := h.confined.frames_le
  newClosure c h := ⟨h.hostless.newClosure c, h.confined.newProcedure (.closure c)⟩
  nameMade name h _ := ⟨(h.hostless.newClosure _).nameClosure _ name,
    (h.confined.newProcedure _).nameClosure (Or.inr h.confined.procedures_le) name⟩
  nameFresh {heap id c} name h there _ new := by
    have made : base.procedures.size ≤ id := by
      by_contra old
      -- an old closure would still be of an old frame
      rw [h.confined.procedure (Nat.lt_of_not_le old) not_false] at there
      exact Nat.lt_irrefl _ (Nat.lt_of_lt_of_le (complete.env_lt there) new)
    exact ⟨h.hostless.nameClosure id name, h.confined.nameClosure (Or.inr made) name⟩
  write name v new h := ⟨h.hostless, h.confined.write (Or.inr new) name v⟩

/-- Code without definitions changes nothing that was there. -/
theorem Complete.confined_eval (complete : base.Complete base.Has) {code : Value}
    (avoids : code.Avoids "define") (env : FrameId) (levels : Nat) :
    Confined (fun _ => False) base (heapAfter (Call.perform levels (.eval code env)) base) := by
  have respects : (Call.eval code env).Respects (base.frames.size ≤ ·) := Or.inl avoids
  have untouched : base.Untouched base := ⟨complete.all_hostless, .refl _ base⟩
  exact ((enclosure_untouched complete).perform levels respects base untouched).confined

/-- A complete heap agrees with every heap that has come from it without a change. -/
theorem Confined.agrees (confined : Confined (fun _ => False) base heap)
    (complete : base.Complete seeds) : base.Agrees seeds heap where
  frame leads := confined.frame (complete.frame leads) not_false
  procedure leads := confined.procedure (complete.procedure leads) not_false

end Heap

/-! ## Purity -/

/-- **Purity**.  In a heap that is complete, an expression without the atom `define` is evaluated in a frame.
However this ends, and whatever it calls, every frame and every procedure that was there is left as it
was.  And to evaluate the expression again right afterwards ends alike: with the same failure, or with
the same value up to the addresses of what has been made since. -/
theorem pure_eval (heap : Heap) (complete : heap.Complete heap.Has) (e : Expr)
    (avoids : e.toValue.Avoids "define") (env : FrameId) (lt : env < heap.frames.size) (levels : Nat) :
    let run := Call.perform levels (.eval e.toValue env)
    let after := heapAfter run heap
    (∀ f < heap.frames.size, after.frames[f]? = heap.frames[f]?) ∧
    (∀ id < heap.procedures.size, after.procedures[id]? = heap.procedures[id]?) ∧
    (Renaming.on heap.Has).EndAlike heap after (run heap) (run after) := by
  intro run after
  have confined := complete.confined_eval avoids env levels
  refine ⟨fun f lt => confined.frame lt not_false, fun id lt => confined.procedure lt not_false, ?_⟩
  have alike : heap.Alike (.on heap.Has) after := by
    have alike := (confined.agrees complete).alike complete
    rwa [complete.leads_eq] at alike
  have code : e.toValue.Alike (.on heap.Has) e.toValue :=
    e.toValue.alike_self fun id holds => absurd holds (e.written_toValue.not_holds id)
  exact Renaming.endAlike_eval alike levels code ⟨rfl, lt⟩

/-- In a root frame `f` is bound to a procedure that defines `z` in its own frame and answers with a procedure of
that frame.  To evaluate `(f)` leaves the root as it is, and so does the second time; each time the answer is
a new procedure. -/
theorem pure_eval_inner_define :
    let body : Value := .list [.atom "begin", .list [.atom "define", .atom "z", .atom "1"],
      .list [.atom "lambda", .list [], .atom "z"]]
    let heap : Heap := ⟨#[⟨none, [("f", .procedure 0)]⟩], #[.closure ⟨[], body, 0, some "f"⟩]⟩
    let run := Call.perform 9 (.eval (Expr.list [.atom "f"]).toValue 0)
    let after := heapAfter run heap
    heap.Complete heap.Has ∧ (Expr.list [.atom "f"]).toValue.Avoids "define" ∧
    ((∀ f < heap.frames.size, after.frames[f]? = heap.frames[f]?) ∧
      (∀ id < heap.procedures.size, after.procedures[id]? = heap.procedures[id]?) ∧
      (Renaming.on heap.Has).EndAlike heap after (run heap) (run after)) ∧
    run heap = .ok (.procedure 1) after ∧ after.frames.size = 2 ∧
    ∃ last, run after = .ok (.procedure 2) last ∧ last.frames.size = 3 := by
  intro body heap run after
  have hostless : heap.Hostless := fun name respond mem => by simp [heap] at mem
  have written : body.Written fun _ => True := Expr.written_toValue (.list [.atom "begin",
    .list [.atom "define", .atom "z", .atom "1"], .list [.atom "lambda", .list [], .atom "z"]])
  have closure : ∀ {id : ProcedureId} {c : Closure}, heap.procedures[id]? = some (.closure c) →
      c.env = 0 ∧ c.body = body := by
    intro id c h
    obtain rfl : id = 0 := Nat.lt_one_iff.mp (Array.getElem?_eq_some_iff.mp h).1
    cases h
    exact ⟨rfl, rfl⟩
  have complete : heap.Complete heap.Has := by
    refine .of_links hostless ?_ ?_ ?_ ?_ fun _ => id
    · intro f parent h
      obtain rfl : f = 0 := Nat.lt_one_iff.mp (Heap.lt_size_of_parent? h)
      cases h
    · intro f name v id h holds
      obtain rfl : f = 0 := Nat.lt_one_iff.mp (Heap.lt_size_of_get? h)
      have h : [("f", Value.procedure 0)].lookup name = some v := h
      simp only [List.lookup_cons, List.lookup_nil] at h
      split at h <;> cases h
      cases holds
      exact Nat.zero_lt_one
    · intro id c h
      rw [(closure h).1]
      exact Nat.zero_lt_one
    · intro id id' c h holds
      rw [(closure h).2] at holds
      exact absurd holds (written.not_holds id')
  have avoids : (Expr.list [.atom "f"]).toValue.Avoids "define" :=
    (Expr.avoids_toValue_iff _ _).mpr (by decide)
  exact ⟨complete, avoids, pure_eval heap complete (.list [.atom "f"]) avoids 0 Nat.zero_lt_one 9, rfl, rfl,
    _, rfl, rfl⟩

end ScopedLisp
