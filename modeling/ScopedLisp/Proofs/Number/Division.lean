import Mathlib.Algebra.BigOperators.Group.List.Basic
import Mathlib.Algebra.Order.Ring.Int
import Mathlib.Tactic.Ring
import ScopedLisp.Proofs.Number.Binary64

/-!
# ScopedLisp.Proofs.Number.Division

Division from left to right, without the checks of the code.  `Number.Divides` says what one division by a
number that is not zero comes to, `Number.Overflows` when it comes to nothing, and `Number.Arrives` where
a row of divisions arrives.

Main statements:

* a row of divisions arrives, comes to a zero, or overflows (`quotient_ends`), and which of these it does
  can be read off it (`quotient_eq_ok_iff`, `quotient_eq_divisionByZero_iff`);
* it arrives at an integer exactly if all numbers are integers, none of the divisors is zero, and nothing is
  left over (`arrives_int_iff`);
* a number that is not zero is not zero as a double either (`isZero_toFloat`), so no double is ever divided
  by zero.
-/

namespace ScopedLisp

namespace Number

variable {a b d first r : Number} {before after ds : List Number}

@[simp] theorem isZero_int {i : Int} : (Number.int i).isZero = true ↔ i = 0 := by
  simp [isZero]

/-- A double is zero if its significand is. -/
theorem exists_of_isZero_float {x : Float} (zero : (Number.float x).isZero = true) :
    ∃ negative exponent, Binary64.view x = .finite negative 0 exponent := by
  simp only [isZero, eq, order?, exact] at zero
  cases h : Binary64.view x with
  | notANumber => simp [h, Exact.order?] at zero
  | infinite negative => cases negative <;> simp [h, Exact.order?] at zero
  | finite negative significand exponent =>
      simp only [h, Exact.order?, compareScaled, zero_mul] at zero
      have scaled : (if negative then -(significand : Int) else significand) *
          power 2 (exponent - min exponent 0) = 0 := by simpa [compare_eq_iff_eq] using zero
      have := power_pos Nat.two_pos (exponent - min exponent 0)
      have none : significand = 0 := by
        rcases Int.mul_eq_zero.mp scaled with h | h
        · split at h <;> omega
        · omega
      exact ⟨negative, exponent, by rw [none]⟩

/-- **No division by a zero of doubles**: a number that is not zero is not zero as a double either. -/
theorem isZero_toFloat {y : Float} (nonzero : d.isZero = false) (h : d.toFloat = .ok y) :
    (Number.float y).isZero = false := by
  cases d with
  | float x =>
      cases h
      exact nonzero
  | int i =>
      have positive : i ≠ 0 := by
        rintro rfl
        cases nonzero
      cases eq : Binary64.ofInt? i with
      | none => simp only [toFloat, eq, reduceCtorEq] at h
      | some x =>
          simp only [toFloat, eq, Except.ok.injEq] at h
          rw [Bool.eq_false_iff]
          intro zero
          obtain ⟨sign, exponent, view⟩ := exists_of_isZero_float zero
          exact Binary64.view_ofInt positive (h ▸ eq) sign exponent view

/-! ## One division -/

/-- An integer that is divided by one of its divisors. -/
def HasExactQuotient (a d : Number) : Prop := ∃ x y : Int, a = .int x ∧ d = .int y ∧ y ∣ x

/-- What `a` comes to when it is divided by `d`, which is not zero. -/
inductive Divides : Number → Number → Number → Prop where
  /-- The quotient of two integers is exact where it can be. -/
  | exact {d q : Int} : d ≠ 0 → Divides (.int (q * d)) (.int d) (.int q)
  /-- Elsewhere the exact quotient is rounded to a double. -/
  | rounded {a d : Int} {z : Float} : d ≠ 0 → ¬d ∣ a →
      Binary64.ofRatio ((a < 0) != (d < 0)) a.natAbs d.natAbs = some z → Divides (.int a) (.int d) (.float z)
  /-- With a double among the two, doubles are divided. -/
  | doubles {a d : Number} {x y : Float} : (∀ i j, a = .int i → d ≠ .int j) → d.isZero = false →
      a.toFloat = .ok x → d.toFloat = .ok y → Divides a d (.float (x / y))

/-- Why `a` comes to nothing when it is divided by `d`, which is not zero. -/
inductive Overflows : Number → Number → Failure → Prop where
  /-- The exact quotient is beyond the largest double. -/
  | rounded {a d : Int} : d ≠ 0 → ¬d ∣ a →
      Binary64.ofRatio ((a < 0) != (d < 0)) a.natAbs d.natAbs = none →
      Overflows (.int a) (.int d) .quotientTooLarge
  /-- With a double among the two, the integer among them is beyond the largest double. -/
  | doubles {a d : Number} : (∀ i j, a = .int i → d ≠ .int j) → d.isZero = false →
      a.toFloat = .error .integerTooLarge ∨ d.toFloat = .error .integerTooLarge →
      Overflows a d .integerTooLarge

/-- A divisor that comes to something is not zero. -/
theorem Divides.isZero_eq (divides : Divides a d r) : d.isZero = false := by
  cases divides with
  | exact nonzero | rounded nonzero _ _ => exact Bool.eq_false_iff.mpr (mt isZero_int.mp nonzero)
  | doubles _ nonzero => exact nonzero

theorem Overflows.isZero_eq {failure : Failure} (overflows : Overflows a d failure) : d.isZero = false := by
  cases overflows with
  | rounded nonzero _ _ => exact Bool.eq_false_iff.mpr (mt isZero_int.mp nonzero)
  | doubles _ nonzero => exact nonzero

/-- An overflow is no division by zero. -/
theorem Overflows.ne_divisionByZero {failure : Failure} (overflows : Overflows a d failure) :
    failure ≠ .divisionByZero := by
  cases overflows <;> exact nofun

/-- What a division by a number that is not zero computes. -/
theorem div_ints {x y : Int} (nonzero : y ≠ 0) :
    div (.int x) (.int y) = if x % y = 0 then .ok (.int (x / y)) else inexactQuotient x y := by
  rw [div, if_neg (mt isZero_int.mp nonzero)]

theorem div_doubles (mixed : ∀ i j, a = .int i → d ≠ .int j) (nonzero : d.isZero = false) :
    div a d = do
      let x ← a.toFloat
      let y ← d.toFloat
      return .float (x / y) := by
  rw [div, if_neg (Bool.eq_false_iff.mp nonzero), combine]
  · exact mixed
  · exact mixed

/-- There is a double for a number, unless it is an integer beyond the largest one. -/
theorem toFloat_cases (a : Number) : (∃ x, a.toFloat = .ok x) ∨ a.toFloat = .error .integerTooLarge := by
  unfold toFloat
  split
  · exact Or.inl ⟨_, rfl⟩
  · split
    · exact Or.inl ⟨_, rfl⟩
    · exact Or.inr rfl

/-- What a division comes to is what it answers. -/
theorem Divides.div_eq (divides : Divides a d r) : div a d = .ok r := by
  cases divides with
  | exact nonzero => rw [div_ints nonzero, if_pos (Int.mul_emod_left _ _), Int.mul_ediv_cancel _ nonzero]
  | rounded nonzero indivisible rounded =>
      rw [div_ints nonzero, if_neg (mt Int.dvd_of_emod_eq_zero indivisible), inexactQuotient, rounded]
  | doubles mixed nonzero ha hd =>
      rw [div_doubles mixed nonzero, ha, hd]
      rfl

theorem Overflows.div_eq {failure : Failure} (overflows : Overflows a d failure) :
    div a d = .error failure := by
  cases overflows with
  | rounded nonzero indivisible beyond =>
      rw [div_ints nonzero, if_neg (mt Int.dvd_of_emod_eq_zero indivisible), inexactQuotient, beyond]
  | doubles mixed nonzero beyond =>
      rw [div_doubles mixed nonzero]
      rcases beyond with ha | hd
      · rw [ha]
        rfl
      · rcases toFloat_cases a with ⟨x, ha⟩ | ha
        · rw [ha, hd]
          rfl
        · rw [ha]
          rfl

/-- Divided by a number that is not zero, every number comes to something or overflows. -/
theorem divides_or_overflows (a : Number) (nonzero : d.isZero = false) :
    (∃ r, Divides a d r) ∨ ∃ failure, Overflows a d failure := by
  by_cases mixed : ∀ i j, a = .int i → d ≠ .int j
  · rcases toFloat_cases a with ⟨x, ha⟩ | ha
    · rcases toFloat_cases d with ⟨y, hd⟩ | hd
      · exact Or.inl ⟨_, .doubles mixed nonzero ha hd⟩
      · exact Or.inr ⟨_, .doubles mixed nonzero (Or.inr hd)⟩
    · exact Or.inr ⟨_, .doubles mixed nonzero (Or.inl ha)⟩
  · push Not at mixed
    obtain ⟨x, y, rfl, rfl⟩ := mixed
    have nonzero : y ≠ 0 := mt isZero_int.mpr (Bool.eq_false_iff.mp nonzero)
    by_cases exact : y ∣ x
    · obtain ⟨q, rfl⟩ := exact
      rw [mul_comm]
      exact Or.inl ⟨_, .exact nonzero⟩
    · cases h : Binary64.ofRatio ((x < 0) != (y < 0)) x.natAbs y.natAbs with
      | some z => exact Or.inl ⟨_, .rounded nonzero exact h⟩
      | none => exact Or.inr ⟨_, .rounded nonzero exact h⟩

/-- One division fails for want of a divisor, comes to a number, or overflows. -/
theorem div_cases (a d : Number) :
    d.isZero = true ∧ div a d = .error .divisionByZero ∨
    (∃ r, Divides a d r ∧ div a d = .ok r) ∨
    ∃ failure, Overflows a d failure ∧ div a d = .error failure := by
  by_cases zero : d.isZero = true
  · exact Or.inl ⟨zero, if_pos zero⟩
  · rcases divides_or_overflows a (Bool.eq_false_iff.mpr zero) with ⟨r, divides⟩ | ⟨failure, overflows⟩
    · exact Or.inr (Or.inl ⟨r, divides, divides.div_eq⟩)
    · exact Or.inr (Or.inr ⟨failure, overflows, overflows.div_eq⟩)

/-! ## Divisions in a row -/

/-- What `first` comes to when it is divided by numbers that are not zero, one after the other. -/
inductive Arrives : Number → List Number → Number → Prop where
  | done (r : Number) : Arrives r [] r
  | step {a d b r : Number} {ds : List Number} : Divides a d b → Arrives b ds r → Arrives a (d :: ds) r

theorem quotient_cons_ok {b : Number} (h : div a d = .ok b) (ds : List Number) :
    quotient a (d :: ds) = quotient b ds := by
  rw [quotient, List.foldlM_cons, h]
  rfl

theorem quotient_cons_error {failure : Failure} (h : div a d = .error failure) (ds : List Number) :
    quotient a (d :: ds) = .error failure := by
  rw [quotient, List.foldlM_cons, h]
  rfl

/-- Where a row of divisions arrives is its quotient. -/
theorem Arrives.quotient_eq (arrives : Arrives first ds r) : quotient first ds = .ok r := by
  induction arrives with
  | done r => rfl
  | step divides _ ih => rw [quotient_cons_ok divides.div_eq, ih]

/-- A row of divisions goes on from where its front has arrived. -/
theorem Arrives.quotient_append (arrives : Arrives first before r) (after : List Number) :
    quotient first (before ++ after) = quotient r after := by
  induction arrives with
  | done r => rfl
  | step divides _ ih => rw [List.cons_append, quotient_cons_ok divides.div_eq, ih]

/-- How a row of divisions ends: it arrives, it meets a zero, or a division overflows. -/
inductive Ends (first : Number) (ds : List Number) : Except Failure Number → Prop where
  | arrives {r : Number} : Arrives first ds r → Ends first ds (.ok r)
  | zero (before : List Number) {after : List Number} {d r : Number} : ds = before ++ d :: after →
      Arrives first before r → d.isZero = true → Ends first ds (.error .divisionByZero)
  | overflows (before : List Number) {after : List Number} {d r : Number} {failure : Failure} :
      ds = before ++ d :: after → Arrives first before r → Overflows r d failure →
      Ends first ds (.error failure)

/-- A division in front of a row puts its end off. -/
theorem Ends.cons {b : Number} {result : Except Failure Number} (divides : Divides a d b)
    (ends : Ends b ds result) : Ends a (d :: ds) result := by
  cases ends with
  | arrives arrives => exact .arrives (.step divides arrives)
  | @zero before after d' r split arrives zero =>
      exact .zero (d :: before) (congrArg _ split) (.step divides arrives) zero
  | @overflows before after d' r failure split arrives overflows =>
      exact .overflows (d :: before) (congrArg _ split) (.step divides arrives) overflows

theorem quotient_ends (first : Number) (ds : List Number) : Ends first ds (quotient first ds) := by
  induction ds generalizing first with
  | nil => exact .arrives (.done first)
  | cons d ds ih =>
      rcases div_cases first d with ⟨zero, h⟩ | ⟨b, divides, h⟩ | ⟨failure, overflows, h⟩
      · rw [quotient_cons_error h]
        exact .zero [] rfl (.done first) zero
      · rw [quotient_cons_ok h]
        exact (ih b).cons divides
      · rw [quotient_cons_error h]
        exact .overflows [] rfl (.done first) overflows

theorem quotient_eq_ok_iff : quotient first ds = .ok r ↔ Arrives first ds r := by
  refine ⟨fun h => ?_, Arrives.quotient_eq⟩
  have ends := quotient_ends first ds
  rw [h] at ends
  cases ends with
  | arrives arrives => exact arrives

/-- A row of divisions fails for want of a divisor exactly if it comes to a zero before it overflows. -/
theorem quotient_eq_divisionByZero_iff : quotient first ds = .error .divisionByZero ↔
    ∃ before d after r, ds = before ++ d :: after ∧ Arrives first before r ∧ d.isZero = true := by
  constructor
  · intro h
    have ends := quotient_ends first ds
    rw [h] at ends
    cases ends with
    | zero before split arrives zero => exact ⟨_, _, _, _, split, arrives, zero⟩
    | overflows _ _ _ overflows => exact absurd rfl overflows.ne_divisionByZero
  · rintro ⟨before, d, after, r, rfl, arrives, zero⟩
    rw [arrives.quotient_append]
    exact quotient_cons_error (if_pos zero) after

/-! ## Exact quotients -/

/-- Once a double, the running quotient stays one. -/
theorem Arrives.exists_float {x : Float} (arrives : Arrives (.float x) ds r) : ∃ y, r = .float y := by
  generalize eq : Number.float x = a at arrives
  induction arrives generalizing x with
  | done r => exact ⟨x, eq.symm⟩
  | step divides _ ih =>
      subst eq
      cases divides with
      | doubles => exact ih rfl

/-- A division that is not exact comes to a double. -/
theorem Divides.exists_float (divides : Divides a d r) (inexact : ¬HasExactQuotient a d) :
    ∃ x, r = .float x := by
  cases divides with
  | @exact d q _ => exact absurd ⟨q * d, d, rfl, rfl, Dvd.intro_left q rfl⟩ inexact
  | rounded | doubles => exact ⟨_, rfl⟩

/-- A row of divisions that has not been exact once arrives at a double. -/
theorem Arrives.exists_float_of_inexact {s : Number} (arrives : Arrives first (before ++ d :: after) s)
    (front : Arrives first before r) (inexact : ¬HasExactQuotient r d) : ∃ z, s = .float z := by
  have rest : Arrives r (d :: after) s := by
    rw [← quotient_eq_ok_iff, ← front.quotient_append, arrives.quotient_eq]
  cases rest with
  | step divides rest =>
      obtain ⟨z, rfl⟩ := divides.exists_float inexact
      exact rest.exists_float

/-- A row of divisions arrives at an integer exactly if it divides an integer by integers other than zero and
nothing is left over. -/
theorem arrives_int_iff {q : Int} : Arrives first ds (.int q) ↔
    ∃ (a : Int) (is : List Int), first = .int a ∧ ds = is.map .int ∧ (∀ i ∈ is, i ≠ 0) ∧ q * is.prod = a := by
  constructor
  · intro arrives
    generalize eq : Number.int q = r at arrives
    induction arrives with
    | done r => exact ⟨q, [], eq.symm, rfl, nofun, mul_one q⟩
    | step divides rest ih =>
        obtain ⟨a, is, rfl, rfl, nonzero, product⟩ := ih eq
        cases divides with
        | @exact d _ positive =>
            refine ⟨a * d, d :: is, rfl, rfl, List.forall_mem_cons.mpr ⟨positive, nonzero⟩, ?_⟩
            rw [List.prod_cons, ← product]
            ring
  · rintro ⟨a, is, rfl, rfl, nonzero, product⟩
    induction is generalizing a with
    | nil =>
        rw [← product, List.prod_nil, mul_one]
        exact .done _
    | cons d is ih =>
        obtain ⟨positive, nonzero⟩ := List.forall_mem_cons.mp nonzero
        have split : a = q * is.prod * d := by
          rw [← product, List.prod_cons]
          ring
        rw [split]
        exact .step (.exact positive) (ih _ nonzero rfl)

/-- None of the integers is zero, and each of them divides what those before it leave of `a`. -/
def DivideInTurn (a : Int) : List Int → Prop
  | [] => True
  | d :: ds => d ≠ 0 ∧ d ∣ a ∧ DivideInTurn (a / d) ds

theorem DivideInTurn.exists_quotient {a : Int} {is : List Int} (h : DivideInTurn a is) :
    ∃ q, (∀ i ∈ is, i ≠ 0) ∧ q * is.prod = a := by
  induction is generalizing a with
  | nil => exact ⟨a, nofun, mul_one a⟩
  | cons d is ih =>
      obtain ⟨positive, divides, rest⟩ := h
      obtain ⟨q, nonzero, product⟩ := ih rest
      refine ⟨q, List.forall_mem_cons.mpr ⟨positive, nonzero⟩, ?_⟩
      rw [List.prod_cons, ← Int.ediv_mul_cancel divides, ← product]
      ring

end Number

end ScopedLisp
