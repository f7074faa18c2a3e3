/-!
# ScopedLisp.Text.Blank

White space: the 29 characters that separate atoms and may stand around a
setting's text.  Lean's own `Char.isWhitespace` knows only four of them;
`isBlank_of_isWhitespace` says that none of those is missing here.
-/

namespace ScopedLisp.Text

/-- Is `c` white space?  The ASCII controls from tab to carriage return and from
the file separator on, the blank itself, and the wider Unicode spaces. -/
def isBlank (c : Char) : Bool :=
  let n := c.toNat
  (0x9 ≤ n && n ≤ 0xd) || (0x1c ≤ n && n ≤ 0x20) || n == 0x85 || n == 0xa0 || n == 0x1680 ||
    (0x2000 ≤ n && n ≤ 0x200a) || n == 0x2028 || n == 0x2029 || n == 0x202f || n == 0x205f ||
    n == 0x3000

/-- Every character that core calls white space is blank. -/
theorem isBlank_of_isWhitespace {c : Char} (h : c.isWhitespace = true) : isBlank c = true := by
  simp only [Char.isWhitespace, Bool.or_eq_true, decide_eq_true_eq] at h
  rcases h with ((rfl | rfl) | rfl) | rfl <;> rfl

/-- A text without the blanks at its two ends. -/
def trimBlanks (cs : List Char) : List Char :=
  ((cs.dropWhile isBlank).reverse.dropWhile isBlank).reverse

end ScopedLisp.Text
