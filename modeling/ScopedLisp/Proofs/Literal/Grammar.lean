import Mathlib.Computability.Language
import Mathlib.Data.List.TakeWhile
import Mathlib.Data.Nat.Digits.Lemmas
import ScopedLisp.Literal

/-!
# ScopedLisp.Proofs.Literal.Grammar

The grammar of literals as languages, put together from single characters by union, concatenation and
repetition, and the values that their words stand for.

```
integer  = sign digits
double   = sign (digits "." digit∗ | "." digits | digits) (nothing | exponent)
exponent = ("e" | "E") sign digits           sign = nothing | "+" | "-"
```

Main statements: the scanner accepts exactly these words (`mem_integer_iff`, `mem_double_iff`), and it cuts
them at their parts (`doubleParts?_eq_some_iff`); so what a text means as a literal can be told from
the grammar alone (`ofText_eq_iff`).
-/

namespace ScopedLisp.Literal

open Text
open scoped Computability

namespace Grammar

/-- A decimal digit of any script. -/
def digit : Language Char := {cs | ∃ c, isDecimalDigit c = true ∧ cs = [c]}

/-- One digit or more. -/
def digits : Language Char := digit * digit∗

/-- A sign, which may be missing. -/
def sign : Language Char := 1 + {['+']} + {['-']}

/-- The point of a double. -/
def point : Language Char := {['.']}

/-- The mark in front of an exponent. -/
def mark : Language Char := {['e']} + {['E']}

/-- An exponent. -/
def exponent : Language Char := mark * sign * digits

/-- The digits of a double, before or behind its point if it has one. -/
def mantissa : Language Char := digits * point * digit∗ + point * digits + digits

/-- An integer. -/
def integer : Language Char := sign * digits

/-- A double; integers are among them. -/
def double : Language Char := sign * mantissa * (1 + exponent)

/-- The spellings of a boolean. -/
def spellings : Bool → List String
  | true => ["#t", "#true"]
  | false => ["#f", "#false"]

/-- The number that digits stand for, each by its value and its place. -/
def positional (ds : List Char) : Nat := Nat.ofDigits 10 (ds.reverse.map fun c => (digitValue? c).getD 0)

/-- The integer that a sign and digits stand for. -/
def signed (s ds : List Char) : Int := if s = ['-'] then -(positional ds : Int) else positional ds

variable {cs body s ds t : List Char} {c : Char}

/-! ## Words -/

/-- Words of digits, the empty one included. -/
theorem mem_repeated_digit : cs ∈ digit∗ ↔ ∀ c ∈ cs, isDecimalDigit c = true := by
  rw [Language.mem_kstar]
  constructor
  · rintro ⟨parts, rfl, single⟩ c mem
    obtain ⟨part, hpart, mem⟩ := List.mem_flatten.mp mem
    obtain ⟨c', decimal, rfl⟩ := single part hpart
    rwa [List.mem_singleton.mp mem]
  · intro decimal
    refine ⟨cs.map fun c => [c], by simp [← List.flatMap_def], ?_⟩
    intro part hpart
    obtain ⟨c, mem, rfl⟩ := List.mem_map.mp hpart
    exact ⟨c, decimal c mem, rfl⟩

/-- Words of one digit or more. -/
theorem mem_digits : cs ∈ digits ↔ cs ≠ [] ∧ ∀ c ∈ cs, isDecimalDigit c = true := by
  rw [digits, Language.mem_mul]
  constructor
  · rintro ⟨_, ⟨c, decimal, rfl⟩, rest, hrest, rfl⟩
    exact ⟨List.cons_ne_nil c rest, List.forall_mem_cons.mpr ⟨decimal, mem_repeated_digit.mp hrest⟩⟩
  · rintro ⟨nonempty, decimal⟩
    obtain ⟨c, rest, rfl⟩ := List.exists_cons_of_ne_nil nonempty
    obtain ⟨first, others⟩ := List.forall_mem_cons.mp decimal
    exact ⟨[c], ⟨c, first, rfl⟩, rest, mem_repeated_digit.mpr others, rfl⟩

theorem mem_sign : s ∈ sign ↔ s = [] ∨ s = ['+'] ∨ s = ['-'] := by
  simp only [sign, Language.mem_add, Language.mem_one, or_assoc]
  rfl

theorem mem_mark : s ∈ mark ↔ s = ['e'] ∨ s = ['E'] := by
  simp only [mark, Language.mem_add]
  rfl

/-! ## Signs -/

/-- A text that does not begin with a sign. -/
def Unsigned (cs : List Char) : Prop := ∀ c ∈ cs.head?, c ≠ '+' ∧ c ≠ '-'

/-- A sign is split off from what has none of its own. -/
theorem splitSign_append (hs : s ∈ sign) (unsigned : Unsigned body) :
    splitSign (s ++ body) = (decide (s = ['-']), body) := by
  rcases mem_sign.mp hs with rfl | rfl | rfl
  · rw [List.nil_append]
    unfold splitSign
    split
    · exact absurd rfl (unsigned '+' rfl).1
    · exact absurd rfl (unsigned '-' rfl).2
    · rfl
  · rfl
  · rfl

/-- Every text is a sign and what is behind it. -/
theorem exists_sign (cs : List Char) :
    ∃ s ∈ sign, cs = s ++ (splitSign cs).2 ∧ (splitSign cs).1 = decide (s = ['-']) := by
  unfold splitSign
  split
  · exact ⟨['+'], mem_sign.mpr (Or.inr (Or.inl rfl)), rfl, rfl⟩
  · exact ⟨['-'], mem_sign.mpr (Or.inr (Or.inr rfl)), rfl, rfl⟩
  · exact ⟨[], mem_sign.mpr (Or.inl rfl), rfl, rfl⟩

/-- A signed word of a language whose words have no sign is such a word behind a sign. -/
theorem mem_sign_mul {L : Language Char} (unsigned : ∀ w ∈ L, Unsigned w) :
    cs ∈ sign * L ↔ (splitSign cs).2 ∈ L := by
  rw [Language.mem_mul]
  constructor
  · rintro ⟨s, hs, w, hw, rfl⟩
    rwa [splitSign_append hs (unsigned w hw)]
  · intro h
    obtain ⟨s, hs, split, _⟩ := exists_sign cs
    exact ⟨s, hs, _, h, split.symm⟩

theorem unsigned_of_digit (decimal : isDecimalDigit c = true) : Unsigned (c :: cs) := by
  rintro _ ⟨⟩
  constructor <;> rintro rfl <;> cases decimal

/-- What begins with digits has no sign. -/
theorem unsigned_digits_append (h : ds ∈ digits) (cs : List Char) : Unsigned (ds ++ cs) := by
  obtain ⟨nonempty, decimal⟩ := mem_digits.mp h
  obtain ⟨c, rest, rfl⟩ := List.exists_cons_of_ne_nil nonempty
  exact unsigned_of_digit (decimal c List.mem_cons_self)

theorem unsigned_digits (h : ds ∈ digits) : Unsigned ds := by
  simpa using unsigned_digits_append h []

/-! ## Digits and their values -/

/-- Reading digits one after the other adds up the values of their places. -/
theorem digitsValue_eq (ds : List Char) : digitsValue ds = positional ds := by
  induction ds using List.reverseRecOn with
  | nil => rfl
  | append_singleton ds c ih =>
      have snoc : digitsValue (ds ++ [c]) = 10 * digitsValue ds + (digitValue? c).getD 0 := by
        rw [digitsValue, List.foldl_append]
        rfl
      rw [snoc, ih, positional, positional, List.reverse_append, List.reverse_singleton, List.singleton_append,
        List.map_cons, Nat.ofDigits_cons, add_comm]

/-- The scanner takes all digits at the front. -/
theorem takeWhile_digits (decimal : ∀ c ∈ ds, isDecimalDigit c = true)
    (stops : ∀ c ∈ t.head?, isDecimalDigit c = false) :
    (ds ++ t).takeWhile isDecimalDigit = ds ∧ (ds ++ t).dropWhile isDecimalDigit = t := by
  rw [List.takeWhile_append_of_pos decimal, List.dropWhile_append_of_pos decimal]
  cases t with
  | nil => simp
  | cons c t =>
      have other := stops c rfl
      rw [List.takeWhile_cons_of_neg (by rw [other]; exact nofun),
        List.dropWhile_cons_of_neg (by rw [other]; exact nofun), List.append_nil]
      exact ⟨rfl, rfl⟩

/-- The digits at the beginning of a text. -/
theorem takeWhile_repeated_digit (cs : List Char) : cs.takeWhile isDecimalDigit ∈ digit∗ :=
  mem_repeated_digit.mpr fun _ mem => List.mem_takeWhile_imp mem

/-- Are these digits, at least one? -/
theorem isDigits_iff : (!cs.isEmpty && cs.all isDecimalDigit) = true ↔ cs ∈ digits := by
  rw [mem_digits, Bool.and_eq_true, List.all_eq_true, Bool.not_eq_true', List.isEmpty_eq_false_iff]

/-! ## Exponents -/

/-- The text stands for an exponent, 0 if there is none. -/
def ExponentOf (cs : List Char) (e : Int) : Prop :=
  cs = [] ∧ e = 0 ∨ ∃ m ∈ mark, ∃ s ∈ sign, ∃ ds ∈ digits, cs = m ++ s ++ ds ∧ e = signed s ds

/-- The texts with an exponent are the words of the language, and the empty one. -/
theorem exists_exponentOf_iff : (∃ e, ExponentOf cs e) ↔ cs ∈ 1 + exponent := by
  rw [Language.mem_add, Language.mem_one, exponent, mul_assoc]
  simp only [Language.mem_mul]
  constructor
  · rintro ⟨e, ⟨rfl, _⟩ | ⟨m, hm, s, hs, ds, hds, rfl, _⟩⟩
    · exact Or.inl rfl
    · exact Or.inr ⟨m, hm, s ++ ds, ⟨s, hs, ds, hds, rfl⟩, (List.append_assoc ..).symm⟩
  · rintro (rfl | ⟨m, hm, _, ⟨s, hs, ds, hds, rfl⟩, rfl⟩)
    · exact ⟨0, Or.inl ⟨rfl, rfl⟩⟩
    · exact ⟨_, Or.inr ⟨m, hm, s, hs, ds, hds, (List.append_assoc ..).symm, rfl⟩⟩

/-- The value of signed digits. -/
theorem signed_eq (s ds : List Char) :
    (if decide (s = ['-']) = true then -(digitsValue ds : Int) else digitsValue ds) = signed s ds := by
  rw [digitsValue_eq, signed]
  simp only [decide_eq_true_eq]

/-- The scanner of exponents looks for a mark and signed digits. -/
theorem exponent?_accepts_iff {c : Char} :
    ((decide (c = 'e') || decide (c = 'E')) && !ds.isEmpty && ds.all isDecimalDigit) = true ↔
      [c] ∈ mark ∧ ds ∈ digits := by
  rw [Bool.and_assoc, Bool.and_eq_true, isDigits_iff, mem_mark]
  simp

/-- The scanner finds the exponent that the grammar gives. -/
theorem exponent?_eq_some_iff {e : Int} : exponent? cs = some e ↔ ExponentOf cs e := by
  cases cs with
  | nil =>
      have noMark : ∀ m ∈ mark, ∀ rest : List Char, [] ≠ m ++ rest := by
        intro m hm rest
        rcases mem_mark.mp hm with rfl | rfl <;> exact nofun
      constructor
      · rintro ⟨⟩
        exact Or.inl ⟨rfl, rfl⟩
      · rintro (⟨_, rfl⟩ | ⟨m, hm, s, _, ds, _, eq, _⟩)
        · rfl
        · exact absurd (eq.trans (List.append_assoc ..)) (noMark m hm _)
  | cons c rest =>
      simp only [exponent?]
      constructor
      · intro h
        obtain ⟨s, hs, split, negative⟩ := exists_sign rest
        split at h
        next accepted =>
          obtain ⟨hmark, hdigits⟩ := exponent?_accepts_iff.mp accepted
          rw [negative, signed_eq] at h
          exact Or.inr ⟨[c], hmark, s, hs, _, hdigits, congrArg (c :: ·) split, (Option.some.inj h).symm⟩
        · cases h
      · rintro (⟨⟨⟩, _⟩ | ⟨m, hm, s, hs, ds, hds, eq, rfl⟩)
        have front : m = [c] ∧ s ++ ds = rest := by
          rcases mem_mark.mp hm with rfl | rfl <;> (cases eq; exact ⟨rfl, rfl⟩)
        obtain ⟨rfl, rfl⟩ := front
        have unsigned : Unsigned ds := unsigned_digits hds
        rw [splitSign_append hs unsigned, if_pos (exponent?_accepts_iff.mpr ⟨hm, hds⟩), signed_eq]

/-- What may stand behind the digits of a double begins neither with a digit nor with a point. -/
theorem head?_of_exponentOf {e : Int} (h : ExponentOf cs e) :
    ∀ c ∈ cs.head?, isDecimalDigit c = false ∧ c ≠ '.' := by
  rcases h with ⟨rfl, _⟩ | ⟨m, hm, s, _, ds, _, rfl, _⟩
  · exact nofun
  · rcases mem_mark.mp hm with rfl | rfl <;> rintro _ ⟨⟩ <;> exact ⟨rfl, by decide⟩

/-! ## Doubles -/

/-- A double without its sign, cut at its parts: the digits before and behind its point, and its exponent. -/
inductive DoubleParts : List Char → List Char → List Char → Int → Prop where
  | pointed {whole fraction tail : List Char} {e : Int} : whole ∈ digit∗ → fraction ∈ digit∗ →
      whole ≠ [] ∨ fraction ≠ [] → ExponentOf tail e →
      DoubleParts (whole ++ '.' :: (fraction ++ tail)) whole fraction e
  | plain {whole tail : List Char} {e : Int} : whole ∈ digits → ExponentOf tail e →
      DoubleParts (whole ++ tail) whole [] e

/-- The scanner finds the parts of a double that the grammar gives. -/
theorem doubleParts?_eq_some_iff {whole fraction : List Char} {e : Int} :
    doubleParts? body = some (whole, fraction, e) ↔ DoubleParts body whole fraction e := by
  constructor
  · intro h
    have cut := List.takeWhile_append_dropWhile (p := isDecimalDigit) (l := body)
    have hwhole := takeWhile_repeated_digit body
    simp only [doubleParts?] at h
    split at h
    next rest hrest =>
      rw [hrest] at cut
      split at h
      · cases h
      next nonempty =>
        obtain ⟨e, exponent, h⟩ := Option.map_eq_some_iff.mp h
        cases h
        have parts := DoubleParts.pointed hwhole (takeWhile_repeated_digit rest) (by
          simpa [Decidable.or_iff_not_not_and_not] using nonempty) (exponent?_eq_some_iff.mp exponent)
        rwa [List.takeWhile_append_dropWhile, cut] at parts
    next rest _ =>
      split at h
      · cases h
      next nonempty =>
        obtain ⟨e, exponent, h⟩ := Option.map_eq_some_iff.mp h
        cases h
        have parts := DoubleParts.plain (mem_digits.mpr ⟨by simpa using nonempty,
          mem_repeated_digit.mp hwhole⟩) (exponent?_eq_some_iff.mp exponent)
        rwa [cut] at parts
  · rintro (@⟨_, _, tail, _, hwhole, hfraction, nonempty, exponent⟩ | @⟨_, tail, _, hwhole, exponent⟩)
    · have stops := fun c mem => (head?_of_exponentOf exponent c mem).1
      obtain ⟨take, drop⟩ := takeWhile_digits (t := '.' :: (fraction ++ tail)) (mem_repeated_digit.mp hwhole) (by
        rintro _ ⟨⟩
        rfl)
      obtain ⟨take', drop'⟩ := takeWhile_digits (mem_repeated_digit.mp hfraction) stops
      rw [doubleParts?, take, drop]
      simp only [take', drop', exponent?_eq_some_iff.mpr exponent]
      rw [if_neg (by simpa [Decidable.or_iff_not_not_and_not] using nonempty)]
      rfl
    · have stops := fun c mem => (head?_of_exponentOf exponent c mem).1
      obtain ⟨nonempty, decimal⟩ := mem_digits.mp hwhole
      obtain ⟨take, drop⟩ := takeWhile_digits decimal stops
      rw [doubleParts?, take, drop]
      split
      next rest => exact absurd rfl (head?_of_exponentOf exponent '.' rfl).2
      next rest _ =>
        rw [if_neg (by simpa using nonempty), exponent?_eq_some_iff.mpr exponent]
        rfl

/-- The parts of a double are those of a word of the grammar without its sign. -/
theorem exists_doubleParts_iff :
    (∃ whole fraction e, DoubleParts body whole fraction e) ↔ body ∈ mantissa * (1 + exponent) := by
  rw [Language.mem_mul]
  constructor
  · rintro ⟨whole, fraction, e, parts⟩
    cases parts with
    | @pointed _ _ tail _ hwhole hfraction nonempty exponent =>
        have htail := exists_exponentOf_iff.mp ⟨e, exponent⟩
        refine ⟨whole ++ '.' :: fraction, ?_, tail, htail, by simp⟩
        rw [mantissa, Language.mem_add, Language.mem_add, mul_assoc]
        left
        by_cases empty : whole = []
        · subst empty
          have hfraction : fraction ∈ digits :=
            mem_digits.mpr ⟨nonempty.resolve_left (fun h => h rfl), mem_repeated_digit.mp hfraction⟩
          exact Or.inr ⟨['.'], rfl, fraction, hfraction, rfl⟩
        · have hwhole : whole ∈ digits := mem_digits.mpr ⟨empty, mem_repeated_digit.mp hwhole⟩
          exact Or.inl ⟨whole, hwhole, _, ⟨['.'], rfl, fraction, hfraction, rfl⟩, rfl⟩
    | @plain _ tail _ hwhole exponent =>
        refine ⟨whole, ?_, tail, exists_exponentOf_iff.mp ⟨e, exponent⟩, rfl⟩
        rw [mantissa, Language.mem_add]
        exact Or.inr hwhole
  · rintro ⟨front, hfront, tail, htail, rfl⟩
    obtain ⟨e, exponent⟩ := exists_exponentOf_iff.mpr htail
    rw [mantissa, Language.mem_add, Language.mem_add, mul_assoc] at hfront
    rcases hfront with (⟨whole, hwhole, _, ⟨_, rfl, fraction, hfraction, rfl⟩, rfl⟩ |
      ⟨_, rfl, fraction, hfraction, rfl⟩) | hwhole
    · obtain ⟨nonempty, decimal⟩ := mem_digits.mp hwhole
      have parts := DoubleParts.pointed (mem_repeated_digit.mpr decimal) hfraction (Or.inl nonempty) exponent
      exact ⟨_, _, _, by simpa using parts⟩
    · obtain ⟨nonempty, decimal⟩ := mem_digits.mp hfraction
      have empty : [] ∈ digit∗ := Language.nil_mem_kstar digit
      have parts := DoubleParts.pointed empty (mem_repeated_digit.mpr decimal) (Or.inr nonempty) exponent
      exact ⟨_, _, _, by simpa using parts⟩
    · exact ⟨_, _, _, .plain hwhole exponent⟩

/-- The parts of a double follow its sign. -/
theorem DoubleParts.unsigned {whole fraction : List Char} {e : Int} (h : DoubleParts body whole fraction e) :
    Unsigned body := by
  cases h with
  | @pointed _ _ tail _ hwhole =>
      cases whole with
      | nil =>
          rintro _ ⟨⟩
          decide
      | cons c whole => exact unsigned_of_digit (mem_repeated_digit.mp hwhole c List.mem_cons_self)
  | plain hwhole => exact unsigned_digits_append hwhole _

/-! ## The languages -/

/-- An integer is a sign, or none, before digits. -/
theorem mem_integer_iff : cs ∈ integer ↔ (splitSign cs).2 ∈ digits :=
  mem_sign_mul fun _ h => unsigned_digits h

/-- A double is a sign, or none, before parts that the scanner finds. -/
theorem mem_double_iff : cs ∈ double ↔ ∃ parts, doubleParts? (splitSign cs).2 = some parts := by
  have unsigned : ∀ w ∈ mantissa * (1 + exponent), Unsigned w := by
    intro w h
    obtain ⟨_, _, _, parts⟩ := exists_doubleParts_iff.mpr h
    exact parts.unsigned
  rw [double, mul_assoc, mem_sign_mul unsigned, ← exists_doubleParts_iff]
  simp only [Prod.exists, doubleParts?_eq_some_iff]

/-- An integer would be a double, were it not an integer. -/
theorem mem_double_of_mem_integer (h : cs ∈ integer) : cs ∈ double := by
  rw [mem_double_iff]
  have parts := DoubleParts.plain (mem_integer_iff.mp h) (Or.inl ⟨rfl, rfl⟩)
  rw [List.append_nil] at parts
  exact ⟨_, doubleParts?_eq_some_iff.mpr parts⟩

/-- No boolean looks like a number. -/
theorem not_mem_double_of_spelling {text : String} {b : Bool} (h : text ∈ spellings b) :
    text.toList ∉ double := by
  have noParts : doubleParts? (splitSign text.toList).2 = none := by
    cases b <;> simp only [spellings, List.mem_cons, List.not_mem_nil, or_false] at h <;>
      rcases h with rfl | rfl <;> rfl
  rw [mem_double_iff, noParts]
  rintro ⟨_, ⟨⟩⟩

/-- What a text means by the grammar.  Booleans come first, then integers, then doubles; and what is none of
these is a name. -/
inductive Means (text : String) : Literal → Prop where
  | boolean {b : Bool} : text ∈ spellings b → Means text (.boolean b)
  | integer {s ds : List Char} : s ∈ sign → ds ∈ digits → text.toList = s ++ ds →
      ds.length ≤ Number.digitLimit → Means text (.integer (signed s ds))
  | oversized {s ds : List Char} : s ∈ sign → ds ∈ digits → text.toList = s ++ ds →
      Number.digitLimit < ds.length → Means text (.oversized ds.length)
  | float {s body whole fraction : List Char} {e : Int} : text.toList ∉ integer → s ∈ sign →
      text.toList = s ++ body → DoubleParts body whole fraction e →
      Means text (.float (Number.floatOfDecimal (s = ['-']) (positional (whole ++ fraction)) (e - fraction.length)))
  | name : (∀ b, text ∉ spellings b) → text.toList ∉ double → Means text .name

variable {text : String}

/-- The texts that mean a truth value. -/
theorem means_boolean_iff {b : Bool} : Means text (.boolean b) ↔ text ∈ spellings b :=
  ⟨fun | .boolean spelling => spelling, .boolean⟩

/-- The texts that mean an integer: a sign before digits, no more than can be converted. -/
theorem means_integer_iff {i : Int} : Means text (.integer i) ↔
    ∃ s ∈ sign, ∃ ds ∈ digits, text.toList = s ++ ds ∧ ds.length ≤ Number.digitLimit ∧ i = signed s ds := by
  constructor
  · intro h
    cases h with
    | integer hs hds eq fits => exact ⟨_, hs, _, hds, eq, fits, rfl⟩
  · rintro ⟨s, hs, ds, hds, eq, fits, rfl⟩
    exact .integer hs hds eq fits

/-- The texts of integers with more digits than can be converted. -/
theorem means_oversized_iff {n : Nat} : Means text (.oversized n) ↔
    ∃ s ∈ sign, ∃ ds ∈ digits, text.toList = s ++ ds ∧ Number.digitLimit < ds.length ∧ n = ds.length := by
  constructor
  · intro h
    cases h with
    | oversized hs hds eq exceeds => exact ⟨_, hs, _, hds, eq, exceeds, rfl⟩
  · rintro ⟨s, hs, ds, hds, eq, exceeds, rfl⟩
    exact .oversized hs hds eq exceeds

/-- The texts that mean a float: a sign before the parts of a double, and no integer. -/
theorem means_float_iff {x : Float} : Means text (.float x) ↔
    text.toList ∉ integer ∧ ∃ s ∈ sign, ∃ body whole fraction e, text.toList = s ++ body ∧
      DoubleParts body whole fraction e ∧
      x = Number.floatOfDecimal (s = ['-']) (positional (whole ++ fraction)) (e - fraction.length) := by
  constructor
  · intro h
    cases h with
    | float other hs eq parts => exact ⟨other, _, hs, _, _, _, _, eq, parts, rfl⟩
  · rintro ⟨other, s, hs, body, whole, fraction, e, eq, parts, rfl⟩
    exact .float other hs eq parts

/-- Every other text is a name. -/
theorem means_name_iff : Means text .name ↔ (∀ b, text ∉ spellings b) ∧ text.toList ∉ double :=
  ⟨fun | .name noSpelling other => ⟨noSpelling, other⟩, fun ⟨noSpelling, other⟩ => .name noSpelling other⟩

/-- A text means some double exactly if it is a word of the grammar of doubles, and no integer. -/
theorem exists_means_float_iff :
    (∃ x, Means text (.float x)) ↔ text.toList ∈ double ∧ text.toList ∉ integer := by
  simp only [means_float_iff, mem_double_iff]
  constructor
  · rintro ⟨x, other, s, hs, body, whole, fraction, e, eq, parts, -⟩
    exact ⟨⟨_, by rw [eq, splitSign_append hs parts.unsigned]; exact doubleParts?_eq_some_iff.mpr parts⟩, other⟩
  · rintro ⟨⟨⟨whole, fraction, e⟩, parts⟩, other⟩
    obtain ⟨s, hs, eq, -⟩ := exists_sign text.toList
    exact ⟨_, other, s, hs, _, whole, fraction, e, eq, doubleParts?_eq_some_iff.mp parts, rfl⟩

end Grammar

open Grammar

variable {text : String} {s ds body : List Char}

/-- A spelling of a truth value is read as it. -/
theorem ofText_of_spelling {b : Bool} (h : text ∈ spellings b) : ofText text = .boolean b := by
  cases b <;> simp only [spellings, List.mem_cons, List.not_mem_nil, or_false] at h <;>
    rcases h with rfl | rfl <;> rfl

/-- Any other text is read as a sign and what follows it. -/
theorem ofText_of_not_spelling (h : ∀ b, text ∉ spellings b) :
    ofText text = ofUnsigned (splitSign text.toList).1 (splitSign text.toList).2 := by
  have noTruth := h true
  have noFalsehood := h false
  simp only [spellings, List.mem_cons, List.not_mem_nil, or_false] at noTruth noFalsehood
  rw [ofText, if_neg (by simpa using noTruth), if_neg (by simpa using noFalsehood)]

/-- Digits are an integer, unless they are too many. -/
theorem ofUnsigned_digits (h : ds ∈ digits) : ofUnsigned (decide (s = ['-'])) ds =
    if Number.digitLimit < ds.length then .oversized ds.length else .integer (signed s ds) := by
  rw [ofUnsigned, if_pos (isDigits_iff.mpr h)]
  simp only [signed_eq]

/-- Digits with a fraction or an exponent are read as a float. -/
theorem ofUnsigned_double {negative : Bool} {whole fraction : List Char} {e : Int} (h : body ∉ digits)
    (parts : DoubleParts body whole fraction e) : ofUnsigned negative body =
      .float (Number.floatOfDecimal negative (positional (whole ++ fraction)) (e - fraction.length)) := by
  rw [ofUnsigned, if_neg (mt isDigits_iff.mp h), doubleParts?_eq_some_iff.mpr parts]
  simp only [digitsValue_eq]

/-- What is neither digits nor a double is read as a name. -/
theorem ofUnsigned_other {negative : Bool} (h : body ∉ digits) (other : doubleParts? body = none) :
    ofUnsigned negative body = .name := by
  rw [ofUnsigned, if_neg (mt isDigits_iff.mp h), other]

/-- **A text means what the grammar says.** -/
theorem ofText_of_means {literal : Literal} (h : Means text literal) : ofText text = literal := by
  have notSpelling (number : text.toList ∈ double) (b : Bool) : text ∉ spellings b :=
    fun spelling => not_mem_double_of_spelling spelling number
  cases h with
  | boolean spelling => exact ofText_of_spelling spelling
  | @integer s ds hs hds eq fits =>
      have unsigned : Unsigned ds := unsigned_digits hds
      have number : text.toList ∈ double := mem_double_of_mem_integer (eq ▸ ⟨s, hs, ds, hds, rfl⟩)
      rw [ofText_of_not_spelling (notSpelling number), eq, splitSign_append hs unsigned, ofUnsigned_digits hds,
        if_neg (Nat.not_lt.mpr fits)]
  | @oversized s ds hs hds eq exceeds =>
      have unsigned : Unsigned ds := unsigned_digits hds
      have number : text.toList ∈ double := mem_double_of_mem_integer (eq ▸ ⟨s, hs, ds, hds, rfl⟩)
      rw [ofText_of_not_spelling (notSpelling number), eq, splitSign_append hs unsigned, ofUnsigned_digits hds,
        if_pos exceeds]
  | @float s body _ _ _ other hs eq parts =>
      have cut := splitSign_append hs parts.unsigned
      rw [mem_integer_iff, eq, cut] at other
      have number : text.toList ∈ double :=
        mem_double_iff.mpr ⟨_, by rw [eq, cut]; exact doubleParts?_eq_some_iff.mpr parts⟩
      rw [ofText_of_not_spelling (notSpelling number), eq, cut, ofUnsigned_double other parts]
  | name noSpelling other =>
      rw [ofText_of_not_spelling noSpelling]
      refine ofUnsigned_other (fun h => other (mem_double_of_mem_integer (mem_integer_iff.mpr h))) ?_
      exact Option.eq_none_iff_forall_ne_some.mpr fun parts h => other (mem_double_iff.mpr ⟨parts, h⟩)

/-- Every text means something by the grammar. -/
theorem exists_means (text : String) : ∃ literal, Means text literal := by
  by_cases spelling : ∃ b, text ∈ spellings b
  · obtain ⟨b, spelling⟩ := spelling
    exact ⟨_, .boolean spelling⟩
  obtain ⟨s, hs, eq, -⟩ := exists_sign text.toList
  by_cases hds : (splitSign text.toList).2 ∈ digits
  · by_cases fits : (splitSign text.toList).2.length ≤ Number.digitLimit
    · exact ⟨_, .integer hs hds eq fits⟩
    · exact ⟨_, .oversized hs hds eq (Nat.not_le.mp fits)⟩
  · by_cases number : text.toList ∈ double
    · obtain ⟨⟨whole, fraction, e⟩, parts⟩ := mem_double_iff.mp number
      exact ⟨_, .float (mt mem_integer_iff.mp hds) hs eq (doubleParts?_eq_some_iff.mp parts)⟩
    · exact ⟨_, .name (fun b h => spelling ⟨b, h⟩) number⟩

/-- The reader of literals and the grammar agree on every text. -/
theorem ofText_eq_iff {literal : Literal} : ofText text = literal ↔ Means text literal := by
  constructor
  · rintro rfl
    obtain ⟨literal, means⟩ := exists_means text
    rwa [ofText_of_means means]
  · exact ofText_of_means

end ScopedLisp.Literal
