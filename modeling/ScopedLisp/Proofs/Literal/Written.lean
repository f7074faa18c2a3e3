import ScopedLisp.Number
import ScopedLisp.Proofs.Lexing
import ScopedLisp.Proofs.Literal.Grammar

/-!
# ScopedLisp.Proofs.Literal.Written

Integers between their text and their value.  Every integer of the grammar, in digits of whatever script,
is one atom (`isAtom_of_mem_integer`).  What is written for an integer is such a word, a minus where it is
needed and ASCII digits (`Number.intText_eq`), and stands for the integer again
(`Literal.ofText_text_int`).
-/

namespace ScopedLisp

open Text

/-! ## Digits between delimiters -/

/-- A decimal digit is one of ASCII, or at most nine places behind the zero of another script. -/
theorem Text.exists_digitZero {c : Char} (decimal : isDecimalDigit c = true) :
    0x30 ≤ c.toNat ∧ c.toNat ≤ 0x39 ∨
      128 ≤ c.toNat ∧ ∃ first ∈ digitZeros, first ≤ c.toNat ∧ c.toNat < first + 10 := by
  obtain ⟨value, found⟩ := Option.isSome_iff_exists.mp decimal
  simp only [digitValue?] at found
  split at found
  · split at found
    next range => exact Or.inl (by simpa using range)
    · cases found
  next beyond =>
    obtain ⟨first, found, -⟩ := Option.map_eq_some_iff.mp found
    have range := List.find?_some found
    exact Or.inr ⟨Nat.not_lt.mp beyond, first, List.mem_of_find?_eq_some found, by simpa using range⟩

namespace Lexer

/-- Where the delimiters are among the characters. -/
theorem toNat_of_isDelimiter {c : Char} (delimiter : isDelimiter c = true) :
    c.toNat < 0x30 ∨ c.toNat = 0x3b ∨ 0x85 ≤ c.toNat ∧ c.toNat ≤ 0xa0 ∨ c.toNat = 0x1680 ∨
      0x2000 ≤ c.toNat ∧ c.toNat ≤ 0x3000 := by
  simp only [isDelimiter, isBlank, Bool.or_eq_true, Bool.and_eq_true, decide_eq_true_eq, beq_iff_eq] at delimiter
  rcases delimiter with ((blank | rfl) | rfl) | rfl
  · omega
  all_goals decide

/-- Digits do not end an atom, whatever their script. -/
theorem isDelimiter_of_isDecimalDigit {c : Char} (decimal : isDecimalDigit c = true) : isDelimiter c = false := by
  -- no script has its digits where there are blanks
  have apart : ∀ first ∈ digitZeros, first = 0x30 ∨ 0xa0 < first ∧ first + 10 ≤ 0x1680 ∨
      0x1680 < first ∧ first + 10 ≤ 0x2000 ∨ 0x3000 < first := by decide
  by_contra delimiter
  have place := toNat_of_isDelimiter (Bool.eq_true_of_not_eq_false delimiter)
  rcases exists_digitZero decimal with ascii | ⟨beyond, first, mem, range⟩
  · omega
  · have := apart first mem
    omega

end Lexer

namespace Literal.Grammar

variable {cs s ds : List Char} {c : Char}

/-- The characters of a sign end no atom, and begin no comment. -/
theorem isDelimiter_of_mem_sign (hs : s ∈ sign) (mem : c ∈ s) : Lexer.isDelimiter c = false ∧ c ≠ '#' := by
  rcases mem_sign.mp hs with rfl | rfl | rfl
  · cases mem
  all_goals
    rw [List.mem_singleton.mp mem]
    decide

/-- An integer is one atom. -/
theorem isAtom_of_mem_integer (h : cs ∈ integer) : cs ≠ [] ∧ Lexer.IsAtom cs := by
  obtain ⟨s, hs, ds, hds, rfl⟩ := Language.mem_mul.mp h
  obtain ⟨nonempty, decimal⟩ := mem_digits.mp hds
  have every : ∀ c ∈ s ++ ds, Lexer.isDelimiter c = false ∧ c ≠ '#' := by
    intro c mem
    rcases List.mem_append.mp mem with mem | mem
    · exact isDelimiter_of_mem_sign hs mem
    · refine ⟨Lexer.isDelimiter_of_isDecimalDigit (decimal c mem), ?_⟩
      rintro rfl
      cases decimal '#' mem
  refine ⟨List.append_ne_nil_of_right_ne_nil s nonempty, fun c mem => (every c mem).1, fun comment => ?_⟩
  exact (every '#' (comment.subset List.mem_cons_self)).2 rfl

/-- So are digits alone. -/
theorem isAtom_of_mem_digits (h : cs ∈ digits) : cs ≠ [] ∧ Lexer.IsAtom cs :=
  isAtom_of_mem_integer (Language.append_mem_mul (mem_sign.mpr (Or.inl rfl)) h)

end Literal.Grammar

/-! ## What is written for an integer -/

namespace Number

open Literal.Grammar

/-- The sign that is written in front of an integer. -/
def signText (i : Int) : List Char := if i < 0 then ['-'] else []

theorem intText_eq (i : Int) : intText i = signText i ++ natText i.natAbs := by
  rw [intText, signText]
  split <;> rfl

theorem signText_mem (i : Int) : signText i ∈ sign := by
  rw [signText, mem_sign]
  split <;> simp

theorem natText_mem_digits (n : Nat) : natText n ∈ digits := by
  refine mem_digits.mpr ⟨Nat.toDigits_ne_nil, fun c mem => ?_⟩
  have ascii : c.isDigit = true := Nat.isDigit_of_mem_toDigits (by decide) (by decide) mem
  simp [isDecimalDigit, digitValue?_of_isDigit ascii]

/-- The digits of a number stand for it, each at its place. -/
theorem positional_natText (n : Nat) : positional (natText n) = n := by
  have ascii : ∀ c ∈ natText n, c.isDigit = true := fun c mem =>
    Nat.isDigit_of_mem_toDigits (by decide) (by decide) mem
  calc positional (natText n)
      = (natText n).foldl (fun m c => 10 * m + (c.toNat - '0'.toNat)) 0 := by
        rw [← digitsValue_eq, Literal.digitsValue]
        refine List.foldl_ext _ _ _ fun m c mem => ?_
        rw [digitValue?_of_isDigit (ascii c mem)]
        rfl
    _ = Nat.ofDigitChars 10 (Nat.toDigits 10 n) 0 := Nat.ofDigitChars_eq_foldl.symm
    _ = n := Nat.ofDigitChars_ten_toDigits

/-- There are as many digits as the number has. -/
theorem length_natText_le_iff (n : Nat) {k : Nat} (positive : 0 < k) :
    (natText n).length ≤ k ↔ (Nat.digits 10 n).length ≤ k := by
  rw [natText, Nat.length_toDigits_le_iff (by decide) positive, Nat.digits_length_le_iff (by decide)]

theorem signed_intText (i : Int) : signed (signText i) (natText i.natAbs) = i := by
  rw [signed, positional_natText, signText]
  split
  next negative =>
    rw [if_pos rfl]
    omega
  next positive =>
    rw [if_neg (List.cons_ne_nil _ _).symm]
    omega

theorem intText_mem_integer (i : Int) : intText i ∈ integer := by
  rw [intText_eq]
  exact Language.append_mem_mul (signText_mem i) (natText_mem_digits i.natAbs)

/-- An integer cannot be written if it has more digits than that. -/
theorem isUnwritable_iff {i : Int} : isUnwritable i = true ↔ 10 ^ digitLimit ≤ i.natAbs := by
  have from_power (limit : Nat) :
      decide (power 10 limit ≤ i.natAbs) = true ↔ 10 ^ limit ≤ i.natAbs := by
    rw [decide_eq_true_iff, power, Int.toNat_natCast]
    rfl
  exact from_power digitLimit

end Number

namespace Literal

open Number Grammar

/-- **An integer that is written is read again**, if its digits are not too many. -/
theorem ofText_text_int {i : Int} (fits : (Nat.digits 10 i.natAbs).length ≤ digitLimit) :
    ofText (Number.int i).text = .integer i := by
  have few : (natText i.natAbs).length ≤ digitLimit := (length_natText_le_iff _ (by decide)).mpr fits
  have chars : (Number.int i).text.toList = signText i ++ natText i.natAbs := by
    rw [Number.text, String.toList_ofList, intText_eq]
  have means := Means.integer (signText_mem i) (natText_mem_digits i.natAbs) chars few
  rw [signed_intText] at means
  exact ofText_of_means means

end Literal

end ScopedLisp
