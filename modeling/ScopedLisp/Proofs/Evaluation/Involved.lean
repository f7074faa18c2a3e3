import Mathlib.Logic.Relation
import ScopedLisp.Proofs.Evaluation.Confinement
import ScopedLisp.Proofs.Evaluation.Discipline
import ScopedLisp.Proofs.Evaluation.Script

/-!
# ScopedLisp.Proofs.Evaluation.Involved

The calls inside a call.  A `Call.Run` is a call as it is performed: with so many levels, in a
heap.  It *makes* another run if the failure of that one, whatever it were, would be its own
failure.  It *involves* itself, the runs that it makes, those that they make, and so on.

* Where a run follows a discipline, all runs that it involves may be made under it
  (`Discipline.Permits.of_involves`).
* Where a run ends with an error, one of the runs that it involves ends with this error by itself
  (`Discipline.Permits.exists_failing`).
-/

namespace ScopedLisp

open Evaluation

/-! ## Runs -/

/-- A call as it is performed: with so many levels, in a heap. -/
structure Call.Run where
  levels : Nat
  call : Call
  heap : Heap

namespace Call.Run

/-- How a run ends. -/
def result (run : Run) : EStateM.Result Failure Heap Value := perform run.levels run.call run.heap

/-- The heap that a run leaves, however it ends. -/
def heapAfter (run : Run) : Heap := Evaluation.heapAfter (perform run.levels run.call) run.heap

/-- A run makes another one, on the next level, if each failure of that one would be its own. -/
def Makes (outer inner : Run) : Prop :=
  outer.levels = inner.levels + 1 ∧ ∀ failure last,
    step inner.levels
      (Caller.failingAt (perform inner.levels) inner.call inner.heap failure last)
      outer.call outer.heap = .error failure last

/-- A run involves itself, the runs that it makes, and those that these involve. -/
def Involves : Run → Run → Prop := Relation.ReflTransGen Makes

end Call.Run

/-! ## Runs under a discipline -/

namespace Discipline

variable {d : Discipline} {outer inner run : Call.Run}

variable (d) in
/-- May a run be made under the discipline? -/
structure Permits (run : Call.Run) : Prop where
  sound : d.sound run.heap
  admits : d.Admits run.heap run.call

/-- A permitted run ends as the discipline wants, with a value that it allows. -/
theorem Permits.ends (permits : d.Permits run) :
    d.Ends run.heap (fun v after => d.value after v) run.result :=
  d.perform run.levels run.heap run.call permits.admits permits.sound

/-- Calls that may be made run in frames of the discipline. -/
theorem frame_of_admits {heap : Heap} {c : Call} (h : d.Admits heap c) : ∃ f, d.frame heap f := by
  induction c with
  | eval code env => exact ⟨env, h.2⟩
  | form keyword operands env => exact ⟨env, h.2⟩
  | apply procedure args env => exact ⟨env, h.2.2⟩
  | nested c ih => exact ih h

/-- To answer one call with a failure breaks no rule if the call may not be made anyway, or if the
failure leaves a heap that it may leave. -/
theorem Follows.failingAt {call : Caller} (calls : d.Follows call) {c : Call} {start last : Heap}
    (fine : d.sound start → d.Admits start c → d.failed start last) (failure : Failure) :
    d.Follows (Caller.failingAt call c start failure last) := by
  intro heap c' admits sound
  simp only [Caller.failingAt]
  split
  next same =>
    obtain ⟨rfl, rfl⟩ := same
    exact fine sound admits
  · exact calls heap c' admits sound

/-- The heap without frames never comes later than a heap in which code can run. -/
def Bounded (d : Discipline) : Prop := ∀ heap f, d.frame heap f → ¬d.failed heap .empty

/-- What a permitted run makes is permitted. -/
theorem Permits.of_makes (permits : d.Permits outer) (bounded : d.Bounded)
    (makes : outer.Makes inner) : d.Permits inner := by
  obtain ⟨levels, fails⟩ := makes
  by_contra forbidden
  -- the inner call could then be answered with any heap, without breaking a rule
  have follows : d.Follows
      (Caller.failingAt (Call.perform inner.levels) inner.call inner.heap .outOfDepth .empty) :=
    (d.perform inner.levels).failingAt (fun sound admits => absurd ⟨sound, admits⟩ forbidden) _
  have ends := follows.step inner.levels outer.heap outer.call permits.admits permits.sound
  rw [fails] at ends
  obtain ⟨f, hf⟩ := frame_of_admits permits.admits
  exact bounded outer.heap f hf ends

/-- What a permitted run involves is permitted. -/
theorem Permits.of_involves (permits : d.Permits outer) (bounded : d.Bounded)
    (involves : outer.Involves inner) : d.Permits inner := by
  induction involves with
  | refl => exact permits
  | tail _ makes ih => exact ih.of_makes bounded makes

/-- A run that ends with an error involves one that has this error of its own: `own` says which
errors a call can have by itself. -/
theorem Permits.exists_failing (permits : d.Permits run) (bounded : d.Bounded)
    {own : Call → Heap → EvalError → Prop}
    (scripted : ∀ levels c heap, d.sound heap → d.Admits heap c →
      Scripted (own c heap) True heap fun call => Call.step levels call c)
    {error : EvalError} {after : Heap} (h : run.result = .error (.error error) after) :
    ∃ inner, run.Involves inner ∧ own inner.call inner.heap error := by
  obtain ⟨levels, c, heap⟩ := run
  induction levels generalizing c heap with
  | zero => cases h
  | succ levels ih =>
      obtain ⟨script, hscript, _, runs⟩ := scripted levels c heap permits.sound permits.admits
      have hrun : script.run (Call.perform levels) = .error (.error error) after :=
        (runs _).symm.trans h
      rcases Script.failure hscript hrun with hown | ⟨inner, start, hinner, fails⟩
      · exact ⟨_, .refl, hown⟩
      · have makes : Call.Run.Makes ⟨levels + 1, c, heap⟩ ⟨levels, inner, start⟩ :=
          ⟨rfl, fun failure last => (runs _).trans (fails failure last)⟩
        obtain ⟨last, involves, hown⟩ := ih inner start (permits.of_makes bounded makes) hinner
        exact ⟨last, .head makes involves, hown⟩

end Discipline

end ScopedLisp
