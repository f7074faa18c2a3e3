import Mathlib.Data.List.DropRight
import ScopedLisp.Proofs.Literal.Written
import ScopedLisp.Settings

/-!
# ScopedLisp.Proofs.Settings

Integers as settings.  Unlike an integer in a program, one in a setting may have white space around it and single
underscores between its digits:

```
setting = blank∗ sign groups blank∗
groups  = digits ("_" digits)∗
```

Main statements: these texts, with at most `Number.digitLimit` digits, are the ones that are read as integers
(`integer?_eq_some_iff`); and a depth limit is asked for by the positive ones alone
(`readDepthLimit_eq_some_iff`).
-/

namespace ScopedLisp.Settings

open Text Literal.Grammar
open Literal (splitSign)
open scoped Computability

variable {cs ds front s w back : List Char} {c : Char} {text : String} {settings : Settings}

/-! ## White space around a text -/

/-- White space at the ends is cut off, and no more. -/
theorem trimBlanks_append (blank : ∀ c ∈ front ++ back, isBlank c = true) (nonempty : w ≠ [])
    (solid : ∀ c ∈ w, isBlank c = false) : trimBlanks (front ++ w ++ back) = w := by
  have ahead : (front ++ w ++ back).dropWhile isBlank = w ++ back := by
    rw [List.append_assoc, List.dropWhile_append_of_pos fun c mem => blank c (List.mem_append_left _ mem)]
    obtain ⟨c, rest, rfl⟩ := List.exists_cons_of_ne_nil nonempty
    simp [solid c]
  have behind : (back.reverse ++ w.reverse).dropWhile isBlank = w.reverse := by
    rw [List.dropWhile_append_of_pos fun c mem => blank c (List.mem_append_right _ (List.mem_reverse.mp mem))]
    obtain ⟨rest, c, rfl⟩ := List.eq_nil_or_concat w |>.resolve_left nonempty
    simp [solid c]
  rw [trimBlanks, ahead, List.reverse_append, behind, List.reverse_reverse]

/-- Every text has white space around what is left when it is trimmed. -/
theorem exists_blanks (cs : List Char) :
    ∃ front back, (∀ c ∈ front ++ back, isBlank c = true) ∧ cs = front ++ trimBlanks cs ++ back := by
  refine ⟨cs.takeWhile isBlank, (cs.dropWhile isBlank).rtakeWhile isBlank, fun c mem => ?_, ?_⟩
  · rcases List.mem_append.mp mem with mem | mem
    · exact List.mem_takeWhile_imp mem
    · exact List.mem_rtakeWhile_imp mem
  · have cut : trimBlanks cs = (cs.dropWhile isBlank).rdropWhile isBlank := rfl
    rw [cut, List.append_assoc, List.rdropWhile_append_rtakeWhile, List.takeWhile_append_dropWhile]

/-! ## Groups of digits -/

/-- Digits with single underscores between them. -/
def groups : Language Char := digits * ({['_']} * digits)∗

/-- The digits of groups, without what stands between them. -/
def ungroup (cs : List Char) : List Char := cs.filter (· ≠ '_')

/-- Groups from left to right: behind a digit stands nothing more, an underscore and groups, or groups. -/
theorem groups_eq : groups = digit * (1 + {['_']} * groups + groups) := by
  have more : ({['_']} * digits)∗ = 1 + {['_']} * groups := by
    rw [groups, ← mul_assoc, Language.one_add_self_mul_kstar_eq_kstar]
  calc groups
      = digit * ((1 + digit * digit∗) * ({['_']} * digits)∗) := by
        rw [groups, Language.one_add_self_mul_kstar_eq_kstar, ← mul_assoc, ← digits]
    _ = digit * (({['_']} * digits)∗ + digits * ({['_']} * digits)∗) := by rw [add_mul, one_mul, ← digits]
    _ = digit * (1 + {['_']} * groups + groups) := by rw [more, ← more, ← groups]

theorem nil_not_mem_groups : [] ∉ groups := by
  rw [groups_eq, Language.mem_mul]
  rintro ⟨_, ⟨c, _, rfl⟩, rest, _, eq⟩
  cases eq

theorem cons_mem_groups_iff : c :: cs ∈ groups ↔
    isDecimalDigit c = true ∧ (cs = [] ∨ (∃ more ∈ groups, cs = '_' :: more) ∨ cs ∈ groups) := by
  conv_lhs => rw [groups_eq]
  simp only [Language.mem_mul, Language.mem_add, Language.mem_one]
  constructor
  · rintro ⟨_, ⟨c, decimal, rfl⟩, rest, (rfl | ⟨_, rfl, more, hmore, rfl⟩) | hrest, eq⟩
    all_goals cases eq
    · exact ⟨decimal, Or.inl rfl⟩
    · exact ⟨decimal, Or.inr (Or.inl ⟨more, hmore, rfl⟩)⟩
    · exact ⟨decimal, Or.inr (Or.inr hrest)⟩
  · rintro ⟨decimal, rfl | ⟨more, hmore, rfl⟩ | hrest⟩
    · exact ⟨[c], ⟨c, decimal, rfl⟩, [], Or.inl (Or.inl rfl), rfl⟩
    · exact ⟨[c], ⟨c, decimal, rfl⟩, _, Or.inl (Or.inr ⟨['_'], rfl, more, hmore, rfl⟩), rfl⟩
    · exact ⟨[c], ⟨c, decimal, rfl⟩, cs, Or.inr hrest, rfl⟩

/-- No group begins with an underscore. -/
theorem underscore_not_mem_groups : '_' :: cs ∉ groups := by
  rw [cons_mem_groups_iff]
  rintro ⟨⟨⟩, -⟩

theorem ungroup_cons (decimal : isDecimalDigit c = true) : ungroup (c :: cs) = c :: ungroup cs := by
  have other : c ≠ '_' := by
    rintro rfl
    cases decimal
  simp [ungroup, other]

/-- The reader takes groups, and nothing else, and leaves the underscores out. -/
theorem ungroupDigits?_eq_some_iff : ungroupDigits? cs = some ds ↔ cs ∈ groups ∧ ds = ungroup cs := by
  fun_induction ungroupDigits? cs generalizing ds with
  | case1 => simp [nil_not_mem_groups]
  | case2 c decimal =>
      rw [ungroup_cons decimal, cons_mem_groups_iff]
      simp [decimal, ungroup, eq_comm]
  | case3 c other => simp [cons_mem_groups_iff, other]
  | case4 c rest decimal ih =>
      rw [ungroup_cons decimal, cons_mem_groups_iff]
      simp [decimal, underscore_not_mem_groups, ih, ungroup, eq_comm]
  | case5 c rest other => simp [cons_mem_groups_iff, other]
  | case6 c rest nonempty apart decimal ih =>
      have nonempty : rest ≠ [] := nonempty
      have alone : ¬∃ more ∈ groups, rest = '_' :: more := by
        rintro ⟨more, -, eq⟩
        exact apart more eq
      rw [ungroup_cons decimal, cons_mem_groups_iff]
      simp [decimal, nonempty, alone, ih, eq_comm]
  | case7 c rest nonempty apart other => simp [cons_mem_groups_iff, other]

/-- Groups are made of digits and underscores. -/
theorem mem_groups_cases {cs : List Char} (h : cs ∈ groups) : ∀ c ∈ cs, isDecimalDigit c = true ∨ c = '_' := by
  cases cs with
  | nil => exact nofun
  | cons d rest =>
      obtain ⟨decimal, rfl | ⟨more, hmore, rfl⟩ | hrest⟩ := cons_mem_groups_iff.mp h
      · simp [decimal]
      · simpa [decimal] using mem_groups_cases hmore
      · simpa [decimal] using mem_groups_cases hrest
termination_by cs.length

/-- No group begins with a sign. -/
theorem unsigned_of_mem_groups (h : cs ∈ groups) : Unsigned cs := by
  cases cs with
  | nil => exact nofun
  | cons c cs => exact unsigned_of_digit (cons_mem_groups_iff.mp h).1

/-! ## Integers -/

/-- Neither a sign nor groups of digits have white space in them. -/
theorem isBlank_of_mem (hs : s ∈ sign) (hcs : cs ∈ groups) (mem : c ∈ s ++ cs) : isBlank c = false := by
  have solid : Lexer.isDelimiter c = false := by
    rcases List.mem_append.mp mem with mem | mem
    · exact (isDelimiter_of_mem_sign hs mem).1
    · rcases mem_groups_cases hcs c mem with decimal | rfl
      · exact Lexer.isDelimiter_of_isDecimalDigit decimal
      · decide
  simp only [Lexer.isDelimiter, Bool.or_eq_false_iff] at solid
  exact solid.1.1.1

/-- A text is an integer: a sign and groups of digits, not too many, with white space around. -/
def IsInteger (text : String) (i : Int) : Prop :=
  ∃ s ∈ sign, ∃ cs ∈ groups, (ungroup cs).length ≤ Number.digitLimit ∧ i = signed s (ungroup cs) ∧
    ∃ front back, (∀ c ∈ front ++ back, isBlank c = true) ∧ text.toList = front ++ (s ++ cs) ++ back

/-- **The integers among the texts** are those that are read as such, with the value of their digits. -/
theorem integer?_eq_some_iff {i : Int} : integer? text = some i ↔ IsInteger text i := by
  simp only [integer?]
  constructor
  · intro h
    obtain ⟨front, back, blank, around⟩ := exists_blanks text.toList
    obtain ⟨s, hs, split, negative⟩ := exists_sign (trimBlanks text.toList)
    rw [negative] at h
    generalize (splitSign (trimBlanks text.toList)).2 = cs at h split
    cases accepted : ungroupDigits? cs with
    | none => simp [accepted] at h
    | some ds =>
        obtain ⟨hcs, rfl⟩ := ungroupDigits?_eq_some_iff.mp accepted
        simp only [accepted] at h
        by_cases many : Number.digitLimit < (ungroup cs).length
        · simp [many] at h
        · rw [if_neg many, signed_eq] at h
          refine ⟨s, hs, cs, hcs, Nat.le_of_not_lt many, (Option.some.inj h).symm, front, back, blank, ?_⟩
          rw [← split]
          exact around
  · rintro ⟨s, hs, cs, hcs, few, rfl, front, back, blank, around⟩
    have nonempty : s ++ cs ≠ [] := by
      have : cs ≠ [] := fun empty => nil_not_mem_groups (empty ▸ hcs)
      simp [this]
    rw [around, trimBlanks_append blank nonempty fun c mem => isBlank_of_mem hs hcs mem,
      splitSign_append hs (unsigned_of_mem_groups hcs), ungroupDigits?_eq_some_iff.mpr ⟨hcs, rfl⟩]
    simp only [if_neg (Nat.not_lt.mpr few), signed_eq]

/-! ## The depth limit asked for -/

/-- The settings ask for a depth limit: it is positive, and their text is this integer. -/
def Asks (settings : Settings) (n : Nat) : Prop :=
  0 < n ∧ ∃ text, settings.depthLimit = some text ∧ IsInteger text n

/-- **What is asked for is read**, and nothing else. -/
theorem readDepthLimit_eq_some_iff {n : Nat} : settings.readDepthLimit.1 = some n ↔ settings.Asks n := by
  simp only [readDepthLimit, Asks]
  cases settings.depthLimit with
  | none => simp
  | some text =>
      by_cases empty : text.isEmpty
      · have absent : integer? text = .none := by
          rw [String.isEmpty_iff.mp empty]
          rfl
        simp [empty, ← integer?_eq_some_iff, absent]
      · cases found : integer? text with
        | none => simp [empty, found, ← integer?_eq_some_iff]
        | some i =>
            by_cases positive : i ≤ 0
            · simp [empty, found, positive, ← integer?_eq_some_iff]
              omega
            · simp [empty, found, positive, ← integer?_eq_some_iff]
              omega

/-- Settings ask for one limit at most. -/
theorem Asks.unique {m n : Nat} (first : settings.Asks m) (second : settings.Asks n) : m = n :=
  Option.some.inj ((readDepthLimit_eq_some_iff.mpr first).symm.trans (readDepthLimit_eq_some_iff.mpr second))

/-- Nothing is reported but that the setting is ignored, and why. -/
theorem mem_readDepthLimit {r : LogRecord} (mem : r ∈ settings.readDepthLimit.2) :
    ∃ text reason, r = .ignored depthLimitVariable text reason := by
  simp only [readDepthLimit] at mem
  cases h : settings.depthLimit with
  | none => simp [h] at mem
  | some text =>
      simp only [h] at mem
      split at mem
      · cases mem
      · split at mem
        · exact ⟨_, _, List.mem_singleton.mp mem⟩
        · split at mem
          · exact ⟨_, _, List.mem_singleton.mp mem⟩
          · cases mem

end ScopedLisp.Settings
