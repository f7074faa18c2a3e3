import ScopedLisp.Proofs.Evaluation.Moments
import ScopedLisp.Proofs.Evaluation.Territory

/-!
# ScopedLisp.Proofs.Evaluation.Order

Growth in order: of the heaps that a run meets, each extends those before it
(`Territory.extends_of_meetsInOrder`).

Between two runs that the same step makes, nothing but growth happens, because the step is a script
that lets the heap grow (`scripted_growth`).  And the runs that a step makes are all that it depends
on (`Territory.step_eq_of_makes`), so no heap is left out.
-/

namespace ScopedLisp

open Evaluation

/-! ## Growth as a law -/

/-- Heaps grow, and no answer is the mark of an unassigned name. -/
def HeapLaw.growth : HeapLaw where
  moves := Heap.Extends
  refl := .refl
  trans := .trans
  answers _ start v after := v ≠ .unassigned ∧ start.Extends after
  moves_of_answers := And.right

theorem Script.Grows.obeys {α : Type} {script : Script α} {heap : Heap} (grows : script.Grows heap) :
    script.Obeys .growth heap := by
  induction script generalizing heap with
  | done result => cases result <;> exact grows
  | ask c start next ih =>
      exact ⟨grows.1, fun v after answers => ih v after (grows.2 v after answers.1 answers.2)⟩

/-! ## Steps -/

/-- Without procedures of a host, every step lets the heap grow. -/
theorem scripted_growth {heap : Heap} (hostless : heap.Hostless) (levels : Nat) (c : Call) :
    Scripted (fun _ => True) True heap fun call => Call.step levels call c := by
  cases c with
  | eval code env =>
      simp only [Call.step]
      unfold Call.evalCode
      split
      · exact Scripted.evalAtom (fun _ _ => trivial) fun _ _ => trivial
      · exact Scripted.evalItems (fun _ _ => trivial) _
      · exact Scripted.evalItems (fun _ _ => trivial) _
      · exact Scripted.failShowing (fun _ => trivial) fun _ _ => trivial
  | form keyword operands env =>
      have code : ∀ e ∈ operands, CodeSet.all.mem e := fun _ _ => trivial
      exact Scripted.form (fun _ _ => trivial) (fun _ _ _ => trivial) code levels keyword
  | apply procedure args env =>
      refine Scripted.applyProcedure (fun _ _ => trivial) (fun name respond hp => ?_)
        (fun _ _ _ => trivial) fun _ _ => trivial
      cases procedure with
      | procedure id => exact hostless name respond (Array.mem_of_getElem? hp)
      | _ => cases hp
  | nested inner => exact Scripted.call inner

/-! ## Runs -/

namespace Territory

open Call Call.Run

variable {run : Run} {before after : Heap}

/-- The steps of permitted runs let the heap grow. -/
theorem governs : HeapLaw.growth.Governs everything.Permits where
  makes permits makes _ := (permits_of_involves permits (.single makes)).1
  scripted permits := by
    obtain ⟨script, _, grows, runs⟩ := scripted_growth permits.sound.sound.hostless _ _
    exact ⟨script, fun _ => (grows trivial).obeys, runs⟩
  answers permits ran growth := by
    have ends := permits.ends
    simp only [Run.result, ran] at ends
    exact ⟨ends.2.2.1, growth⟩

/-- The runs that a permitted run makes decide how it ends: if they are answered as they end, then all
other calls may be answered in any way.  So no call of a step is missing among them. -/
theorem step_eq_of_makes {levels : Nat} {c : Call} {heap : Heap}
    (permits : everything.Permits ⟨levels + 1, c, heap⟩) {call : Caller}
    (same : ∀ inner, Makes ⟨levels + 1, c, heap⟩ inner → call inner.call inner.heap = inner.result) :
    step levels call c heap = perform (levels + 1) c heap := by
  obtain ⟨script, _, runs⟩ := governs.scripted permits
  refine (runs call).trans (Eq.trans (script.run_eq_of_asks fun inner start asks => ?_) (runs _).symm)
  exact same ⟨levels, inner, start⟩ ⟨rfl, fun failure last => (runs _).trans (asks failure last)⟩

/-- The heaps that a permitted run meets lie between its own and the one that it leaves. -/
theorem extends_of_meets (permits : everything.Permits run) (meets : run.Meets after) :
    after.Sound ∧ run.heap.Extends after ∧ after.Extends run.heapAfter := by
  refine ⟨?_, governs.meets permits meets⟩
  induction meets with
  | start => exact permits.sound.sound
  | finish => exact (kept_heapAfter permits).sound
  | inside makes _ ih => exact ih (permits_of_involves permits (.single makes)).1

/-- **Growth in order**: of the heaps that a permitted run meets, each extends those before it. -/
theorem extends_of_meetsInOrder (permits : everything.Permits run)
    (meets : run.MeetsInOrder before after) : before.Extends after :=
  governs.inOrder permits meets

end Territory

end ScopedLisp
