import ScopedLisp.Proofs.FirstOrder.Evaluation
import ScopedLisp.Proofs.Heap.StandardFrame
import ScopedLisp.Proofs.Session.Reached
import ScopedLisp.Proofs.Session.Streaming

/-!
# ScopedLisp.Proofs.FirstOrder.Program

First-order programs as source texts: whatever text is read as the code of a closed term, to run it is to find out
what the term means.
-/

namespace ScopedLisp

open ScopedLisp.FirstOrder

/-- To run a text is to evaluate it in a new standard frame. -/
theorem run_eq (source : String) (session : Session) : run source session =
    (Interpreter.mk session.heap.standardFrame.1).eval source
      { session with heap := session.heap.standardFrame.2 } := rfl

namespace FirstOrder

/-- Nothing is bound in a standard frame but primitives. -/
theorem shows_standardFrame (heap : Heap) : Shows heap.standardFrame.2 heap.standardFrame.1 .nil :=
  ⟨heap.rooted_standardFrame, nofun, heap.lookup_standardFrame⟩

end FirstOrder

/-- **First-order programs compute their mathematical meaning.**  Take a closed term that is nested no deeper than
the limit on nested calls allows.  It has a source text: its code as it is written, or any other text that is read as
this code, whatever its layout.  To run such a text, in whatever session, gives the value of the term; or it fails
by a division by zero, if the term has no value, and then in the name of the division that meets a zero first when
operands are evaluated from left to right.

If everything is logged, the code has to be nested less deeply than the limit too, because it is put into words. -/
theorem first_order_programs_compute {τ : Ty} (t : Term [] τ) {session : Session}
    (nested : t.levels ≤ session.depthLimit)
    (written : session.threshold = .debug → t.code.toValue.height < session.depthLimit) :
    readAll t.code.toSource = .ok [t.code] ∧ ∀ source, readAll source = .ok [t.code] →
      ∃ after, run source session =
        match t.denote .nil with
        | .ok value => .ok (τ.value value) after
        | .error p => .error (.evaluation (.divisionByZero (some p.name))) after := by
  refine ⟨t.readAll_toSource, fun source reads => ?_⟩
  let root := session.heap.standardFrame.1
  let start : Session := { session with heap := session.heap.standardFrame.2 }
  have lt : root < start.heap.frames.size := (Heap.rooted_standardFrame _).lt_size
  have ends := t.ends (shows_standardFrame session.heap) lt (Nat.le_refl _) nested
  have positive : 0 < start.depthLimit := Nat.lt_of_lt_of_le t.levels_pos nested
  obtain ⟨log, form⟩ := Interpreter.evalForm_written ⟨root⟩ positive written
  rw [run_eq, Interpreter.eval_of_readAll_singleton _ reads]
  simp only [Step.evaluate] at form
  generalize Call.perform start.depthLimit (.eval t.code.toValue root) start.heap = result at ends form
  generalize t.denote .nil = meaning at ends
  cases ends with
  | value _ is_right =>
      cases is_right
      rcases form with ⟨v, after, evaluated, ended⟩ | ⟨error, after, log', evaluated, -⟩
      · cases evaluated
        exact ⟨_, ended⟩
      · cases evaluated
  | zero _ =>
      rcases form with ⟨v, after, evaluated, -⟩ | ⟨error, after, log', evaluated, ended⟩
      · cases evaluated
      · cases evaluated
        exact ⟨_, ended⟩

/-! ## Two programs -/

namespace FirstOrder

/-- The literal of one digit. -/
def Numeral.digit (c : Char) (decimal : Text.isDecimalDigit c = true) : Numeral where
  sign := []
  digits := [c]
  sign_mem := Literal.Grammar.mem_sign.mpr (Or.inl rfl)
  digits_mem := Literal.Grammar.mem_digits.mpr ⟨nofun, List.forall_mem_singleton.mpr decimal⟩
  fits := Nat.le_of_ble_eq_true rfl

/-- The variable `x`. -/
def Variable.x : Variable := ⟨"x", rfl, rfl, rfl, by decide, by decide, by decide⟩

/-- A variable that is bound twice, the second time to the square of the first. -/
def squaredAndHalved : Term [] .integer :=
  .letInOrder
    (.cons .x (.numeral (.digit '7' rfl))
      (.cons .x (.application (.product 2) (.cons (.var .here) (.cons (.var .here) .nil))) .nil))
    (.last (.conditional
      (.application .less (.cons (.var .here) (.cons (.numeral (.digit '9' rfl)) .nil)))
      (.application (.sum 1) (.cons (.var .here) .nil))
      (.application .quotient
        (.cons (.var .here)
          (.cons (.application (.difference 0) (.cons (.numeral (.digit '2' rfl)) .nil)) .nil)))))

/-- Two divisions by zero. -/
def dividedTwice : Term [] .integer :=
  .application (.sum 2)
    (.cons
      (.application .modulus
        (.cons (.numeral (.digit '7' rfl))
          (.cons
            (.application (.difference 1)
              (.cons (.numeral (.digit '2' rfl)) (.cons (.numeral (.digit '2' rfl)) .nil))) .nil)))
      (.cons
        (.application .quotient
          (.cons (.numeral (.digit '1' rfl)) (.cons (.numeral (.digit '0' rfl)) .nil))) .nil))

end FirstOrder

/-- The inner variable is the one that is seen, and the first of two divisions is the one that fails. -/
theorem first_order_programs_compute_shadowing :
    (∃ after, run "(let* ((x 7) ; seven\n (x (* x x)))\n (if (< x 9) (+ x) (quotient x (- 2))))" .start =
      .ok (.int (-24)) after) ∧
    ∃ after, run "(+ (modulo 7 (- 2 2)) (quotient 1 0))" .start =
      .error (.evaluation (.divisionByZero (some "modulo"))) after :=
  ⟨(first_order_programs_compute squaredAndHalved (by decide) (by decide)).2 _ (by cbv),
    (first_order_programs_compute dividedTwice (by decide) (by decide)).2 _ (by cbv)⟩

end ScopedLisp
