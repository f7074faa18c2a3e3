import Mathlib.Algebra.Order.Ring.Int
import Mathlib.Data.Nat.ModEq
import ScopedLisp.Value.Host

/-!
# ScopedLisp.Proofs.Value.Hash

Hashing agrees with equality: values that the host takes for equal hash alike (`Value.hash?_eq_of_equal`), numbers
of different representations and booleans included, and the values that cannot be hashed are those of which a part
can still be changed (`Value.hash?_eq_error_iff`).  So a name is found among the entries of a mapping where an equal
one is, and the search fails for the others before it begins.
-/

namespace ScopedLisp

/-! ## Numbers -/

namespace Number

variable {a b x y : Int}

/-- Modulo the modulus of the hashes a power of two counts by its exponent modulo 61. -/
theorem two_pow_modEq (k : Nat) : 2 ^ k ≡ 2 ^ (k % 61) [MOD hashModulus] := by
  have whole : 2 ^ 61 ≡ 1 [MOD hashModulus] := rfl
  calc 2 ^ k = (2 ^ 61) ^ (k / 61) * 2 ^ (k % 61) := by rw [← Nat.pow_mul, ← Nat.pow_add, Nat.div_add_mod]
    _ ≡ 1 ^ (k / 61) * 2 ^ (k % 61) [MOD hashModulus] := (whole.pow _).mul_right _
    _ = 2 ^ (k % 61) := by rw [Nat.one_pow, Nat.one_mul]

/-- A significand that is scaled up for a smaller exponent leaves the same residue. -/
theorem residue_scale (m : Nat) (le : x ≤ y) :
    m * power 2 (y - x) * power 2 (x % 61) ≡ m * power 2 (y % 61) [MOD hashModulus] := by
  have exponents : ((y - x).toNat + (x % 61).toNat) % 61 = (y % 61).toNat := by omega
  have scaled : power 2 (y - x) * power 2 (x % 61) ≡ power 2 (y % 61) [MOD hashModulus] := by
    have counts := two_pow_modEq ((y - x).toNat + (x % 61).toNat)
    rwa [exponents, Nat.pow_add] at counts
  rw [Nat.mul_assoc]
  exact scaled.mul_left m

/-- Nor does the hash change. -/
theorem Exact.hash_scale (b : Int) (le : x ≤ y) :
    (Exact.finite (b * power 2 (y - x)) x).hash = (Exact.finite b y).hash := by
  have positive : (0 : Int) < power 2 (y - x) := Int.natCast_pos.mpr (power_pos Nat.two_pos _)
  have sign : b * power 2 (y - x) < 0 ↔ b < 0 := by
    have scaled := Int.mul_lt_mul_right (b := b) (c := 0) positive
    rwa [Int.zero_mul] at scaled
  have size : (b * power 2 (y - x)).natAbs = b.natAbs * power 2 (y - x) := by
    rw [Int.natAbs_mul, Int.natAbs_natCast]
  have residue : b.natAbs * power 2 (y - x) * power 2 (x % 61) % hashModulus =
      b.natAbs * power 2 (y % 61) % hashModulus := residue_scale b.natAbs le
  simp only [hash, sign, size, residue]

/-- Significands that are equal over the smaller exponent hash alike. -/
theorem Exact.hash_eq_of_scaled (le : x ≤ y)
    (scaled : a * power 2 (x - min x y) = b * power 2 (y - min x y)) :
    (Exact.finite a x).hash = (Exact.finite b y).hash := by
  rw [Int.min_eq_left le, power_of_nonpos 2 (Int.le_of_eq (Int.sub_self x)), Int.natCast_one, Int.mul_one] at scaled
  rw [scaled, hash_scale b le]

/-- Exact values that compare as equal hash alike. -/
theorem Exact.hash_eq_of_order? {e e' : Exact} (same : e.order? e' = some .eq) : e.hash = e'.hash := by
  cases e with
  | undefined => cases same
  | infinite negative =>
      cases e' with
      | undefined => cases same
      | infinite negative' => cases negative <;> cases negative' <;> first | rfl | cases same
      | finite b y => cases negative <;> cases same
  | finite a x =>
      cases e' with
      | undefined => cases same
      | infinite negative' => cases negative' <;> cases same
      | finite b y =>
          have scaled : a * power 2 (x - min x y) = b * power 2 (y - min x y) :=
            compare_eq_iff_eq.mp (Option.some.inj same)
          rcases Int.le_total x y with le | le
          · exact hash_eq_of_scaled le scaled
          · rw [Int.min_comm] at scaled
            exact (hash_eq_of_scaled le scaled.symm).symm

/-- Numbers of equal value hash alike. -/
theorem hash_eq_of_eq {m n : Number} (same : m.eq n = true) : m.exact.hash = n.exact.hash :=
  Exact.hash_eq_of_order? (beq_iff_eq.mp same)

end Number

/-! ## Values -/

namespace Value

variable {v w : Value}

/-- Booleans hash as the numbers that they count as. -/
theorem hash?_of_numeric? {n : Number} (counts : v.numeric? = some n) : v.hash? = .ok n.exact.hash := by
  cases v with
  | number m =>
      cases counts
      rw [hash?]
  | bool b =>
      cases counts
      cases b <;> rfl
  | _ => cases counts

/-- A number or a boolean is equal only to numbers and booleans, those of its value. -/
theorem numeric?_of_equal {m : Number} (counts : v.numeric? = some m) (same : v.equal w = true) :
    ∃ n, w.numeric? = some n ∧ m.eq n = true := by
  cases v with
  | number m' =>
      cases counts
      cases w with
      | number n => exact ⟨n, rfl, same⟩
      | bool b => exact ⟨_, rfl, same⟩
      | _ => cases same
  | bool b =>
      cases counts
      cases w with
      | number n => exact ⟨n, rfl, same⟩
      | bool b' => exact ⟨_, rfl, same⟩
      | _ => cases same
  | _ => cases counts

theorem hash?_eq_of_numeric? {m : Number} (counts : v.numeric? = some m) (same : v.equal w = true) :
    v.hash? = w.hash? := by
  obtain ⟨n, counts', same⟩ := numeric?_of_equal counts same
  rw [hash?_of_numeric? counts, hash?_of_numeric? counts', Number.hash_eq_of_eq same]

mutual
/-- **Hashing agrees with equality**: equal values hash alike, or neither of them can be hashed. -/
theorem hash?_eq_of_equal : ∀ {v w : Value}, v.equal w = true → v.hash? = w.hash?
  | .list vs, w, same => by
      cases w with
      | list ws =>
          rw [equal] at same
          rw [hash?, hash?, hashes?_eq_of_equalItems same]
      | _ => cases same
  | .array vs, w, same => by
      cases w with
      | array ws => rfl
      | _ => cases same
  | .number n, w, same => hash?_eq_of_numeric? rfl same
  | .bool b, w, same => hash?_eq_of_numeric? rfl same
  | .symbol s, w, same => by
      cases w with
      | symbol t => rw [show s = t from eq_of_beq same]
      | _ => cases same
  | .string s, w, same => by
      cases w with
      | string t => rw [show s = t from eq_of_beq same]
      | _ => cases same
  | .atom s, w, same => by
      cases w with
      | atom t => rw [show s = t from eq_of_beq same]
      | _ => cases same
  | .procedure id, w, same => by
      cases w with
      | procedure other => rw [show id = other from eq_of_beq same]
      | _ => cases same
  | .object id _, w, same => by
      cases w with
      | object other _ => rw [hash?, hash?, show id = other from eq_of_beq same]
      | _ => cases same
  | .unassigned, w, same => by
      cases w with
      | unassigned => rfl
      | _ => cases same
  | .nothing, w, same => by
      cases w with
      | nothing => rfl
      | _ => cases same

theorem hashes?_eq_of_equalItems : ∀ {vs ws : List Value},
    equalItems vs ws = true → hashes? vs = hashes? ws
  | [], [], _ => rfl
  | [], _ :: _, same => by cases same
  | _ :: _, [], same => by cases same
  | v :: vs, w :: ws, same => by
      rw [equalItems, Bool.and_eq_true] at same
      rw [hashes?, hashes?, hash?_eq_of_equal same.1, hashes?_eq_of_equalItems same.2]
end

/-- Two values that can be hashed hash alike if they are equal. -/
theorem hashesAlike_eq_true {answer : Bool} (hashed : hashesAlike v w = .ok answer) : answer = true := by
  unfold hashesAlike at hashed
  split at hashed
  next same =>
    rw [hash?_eq_of_equal same] at hashed
    cases h : w.hash? with
    | error e => rw [h] at hashed; cases hashed
    | ok i =>
        rw [h] at hashed
        cases hashed
        exact beq_self_eq_true i
  · cases hashed
    rfl

mutual
/-- The values that cannot be hashed are those of which a part can still be changed. -/
theorem hash?_eq_error_iff : ∀ {v : Value} {e : EvalError},
    v.hash? = .error e ↔ v.isChangeable = true ∧ e = .changeableKey
  | .list items, e => by
      rw [hash?, isChangeable, ← hashes?_eq_error_iff]
      cases hashes? items <;> simp [Except.map]
  | .array _, e => by simp [hash?, isChangeable, eq_comm]
  | .number _, e | .bool _, e | .symbol _, e | .string _, e | .atom _, e | .procedure _, e | .object .., e
  | .unassigned, e | .nothing, e => by
      simp [hash?, isChangeable]

theorem hashes?_eq_error_iff : ∀ {vs : List Value} {e : EvalError},
    hashes? vs = .error e ↔ areChangeable vs = true ∧ e = .changeableKey
  | [], e => by simp [hashes?, areChangeable]
  | v :: vs, e => by
      rw [hashes?, areChangeable, Bool.or_eq_true]
      cases h : hash? v with
      | error e' =>
          obtain ⟨changeable, rfl⟩ := hash?_eq_error_iff.mp h
          refine ⟨fun failed => ?_, fun ⟨_, eq⟩ => eq ▸ rfl⟩
          cases failed
          exact ⟨Or.inl changeable, rfl⟩
      | ok i =>
          have fixed : ¬v.isChangeable = true := fun changeable => by
            cases h.symm.trans (hash?_eq_error_iff.mpr ⟨changeable, rfl⟩)
          rw [or_iff_right fixed, ← hashes?_eq_error_iff]
          cases hashes? vs <;> simp [Bind.bind, Except.bind, Pure.pure, Except.pure]
end

end Value

end ScopedLisp
