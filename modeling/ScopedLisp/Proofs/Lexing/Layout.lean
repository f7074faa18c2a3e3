import ScopedLisp.Proofs.Lexing

/-!
# ScopedLisp.Proofs.Lexing.Layout

What may stand between two tokens: white space, line comments with the end of their line,
and block comments with all of their closers (`Layout`).  Where a block comment is closed is
said without the lexer, by a scan for its openers and closers (`afterClosers`).

* the lexer ends a block comment where the scan does, and never where the scan does not
  close it (`run_blockComment`);
* from a gap, layout leads to a gap and adds no token (`run_layout`).
-/

namespace ScopedLisp.Lexer

open Text

/-! ## Openers and closers -/

/-- The text behind the last closer of a block comment of which `depth` openers are to be closed;
`none` if the comment is not closed.  From left to right each `#|` is an opener and each `|#` a
closer, and no character belongs to two of them. -/
def afterClosers : (depth : Nat) → List Char → Option (List Char)
  | 0, cs => some cs
  | _ + 1, [] => none
  | _ + 1, [_] => none
  | depth + 1, c :: d :: cs =>
    if c = '#' ∧ d = '|' then afterClosers (depth + 2) cs
    else if c = '|' ∧ d = '#' then afterClosers depth cs
    else afterClosers (depth + 1) (d :: cs)

/-- Characters behind `#|` that close the comment, with nothing behind the last closer. -/
def Closed (comment : List Char) : Prop := afterClosers 1 comment = some []

instance (comment : List Char) : Decidable (Closed comment) :=
  inferInstanceAs (Decidable (_ = _))

/-- What is behind the last closer is the end of the text, and the scan stops there also if nothing
follows. -/
theorem afterClosers_eq_some {depth : Nat} {cs rest : List Char}
    (h : afterClosers depth cs = some rest) :
    ∃ comment, cs = comment ++ rest ∧ afterClosers depth comment = some [] := by
  fun_induction afterClosers depth cs with
  | case1 cs =>
      cases h
      exact ⟨[], rfl, rfl⟩
  | case2 => cases h
  | case3 => cases h
  | case4 depth c d cs opener ih =>
      obtain ⟨comment, rfl, closed⟩ := ih h
      exact ⟨c :: d :: comment, rfl, by simp [afterClosers, opener, closed]⟩
  | case5 depth c d cs opener closer ih =>
      obtain ⟨comment, rfl, closed⟩ := ih h
      exact ⟨c :: d :: comment, rfl, by simp [afterClosers, closer, closed]⟩
  | case6 depth c d cs opener closer ih =>
      obtain ⟨comment, split, closed⟩ := ih h
      cases comment with
      | nil => simp [afterClosers] at closed
      | cons d' comment =>
          rw [List.cons_append, List.cons.injEq] at split
          obtain ⟨rfl, rfl⟩ := split
          exact ⟨c :: d :: comment, rfl, by rw [afterClosers, if_neg opener, if_neg closer, closed]⟩

/-- A character of a block comment ends it as it ends the scan, or leaves both as many openers to
close.  The character read before it, which may be the first one of a pair, is scanned once more. -/
theorem stepBlock_cases (start depth : Nat) (before : Option Char) (c : Char) :
    (stepBlock start (depth + 1) before c = .gap ∧
      ∀ cs, afterClosers (depth + 1) (before.toList ++ c :: cs) = some cs) ∨
    ∃ depth' before', stepBlock start (depth + 1) before c =
        .blockComment start (depth' + 1) before' ∧
      ∀ cs, afterClosers (depth + 1) (before.toList ++ c :: cs) =
        afterClosers (depth' + 1) (before'.toList ++ cs) := by
  cases before with
  | none => exact Or.inr ⟨depth, some c, by simp [stepBlock], fun cs => rfl⟩
  | some b =>
      by_cases opener : b = '#' ∧ c = '|'
      · exact Or.inr ⟨depth + 1, none, by simp [stepBlock, opener], by simp [afterClosers, opener]⟩
      by_cases closer : b = '|' ∧ c = '#'
      · cases depth with
        | zero => exact Or.inl ⟨by simp [stepBlock, closer], by simp [afterClosers, closer]⟩
        | succ depth =>
            exact Or.inr ⟨depth, none, by simp [stepBlock, closer], by simp [afterClosers, closer]⟩
      · exact Or.inr ⟨depth, some c, by simp [stepBlock, opener, closer],
          by simp [afterClosers, opener, closer]⟩

/-- **The lexer closes a block comment where the scan does**: it is in a gap then.  Where the scan
does not close it, the lexer is in the comment at the end of the text. -/
theorem run_blockComment (start depth : Nat) (before : Option Char) (position : Nat)
    (tokens : Array Token) (cs : List Char) :
    (afterClosers (depth + 1) (before.toList ++ cs) = some [] →
      run ⟨.blockComment start (depth + 1) before, position, tokens⟩ cs =
        ⟨.gap, position + cs.length, tokens⟩) ∧
    (afterClosers (depth + 1) (before.toList ++ cs) = none →
      (run ⟨.blockComment start (depth + 1) before, position, tokens⟩ cs).finish =
        ⟨tokens.toList, some (.unterminatedComment start)⟩) := by
  induction cs generalizing depth before position with
  | nil => cases before <;> simp [afterClosers, finish]
  | cons c cs ih =>
      rw [run_cons, step, List.length_cons, Nat.add_comm cs.length, ← Nat.add_assoc]
      rcases stepBlock_cases start depth before c with
        ⟨stepped, scanned⟩ | ⟨depth', before', stepped, scanned⟩
      · rw [stepped, scanned cs]
        constructor
        · intro ended
          cases ended
          rfl
        · intro unclosed
          cases unclosed
      · rw [stepped, scanned cs]
        exact ih depth' before' (position + 1)

/-! ## Line comments -/

/-- A line comment goes on to the end of its line. -/
theorem run_lineComment {comment : List Char} (h : '\n' ∉ comment) (position : Nat)
    (tokens : Array Token) :
    run ⟨.lineComment, position, tokens⟩ comment =
      ⟨.lineComment, position + comment.length, tokens⟩ := by
  induction comment generalizing position with
  | nil => rfl
  | cons c comment ih =>
      obtain ⟨hc, hcomment⟩ : c ≠ '\n' ∧ '\n' ∉ comment := by simpa [eq_comm] using h
      have stepped : step ⟨.lineComment, position, tokens⟩ c =
          ⟨.lineComment, position + 1, tokens⟩ := by
        simp [step, hc]
      rw [run_cons, stepped, ih hcomment, List.length_cons]
      congr 1
      omega

/-! ## Layout -/

/-- White space, line comments that end with their line, and block comments that are closed, in any
number and order. -/
inductive Layout : List Char → Prop
  | nil : Layout []
  | blank {c : Char} {cs : List Char} : isBlank c = true → Layout cs → Layout (c :: cs)
  | line {comment cs : List Char} : '\n' ∉ comment → Layout cs →
      Layout (';' :: comment ++ '\n' :: cs)
  | block {comment cs : List Char} : Closed comment → Layout cs →
      Layout ('#' :: '|' :: comment ++ cs)

theorem Layout.append {a b : List Char} (ha : Layout a) (hb : Layout b) : Layout (a ++ b) := by
  induction ha with
  | nil => exact hb
  | blank hc _ ih => exact .blank hc ih
  | line hcomment _ ih => simpa using Layout.line hcomment ih
  | block hcomment _ ih => simpa using Layout.block hcomment ih

/-- **Layout adds no token**: the lexer goes from a gap to a gap. -/
theorem run_layout {gap : List Char} (h : Layout gap) (position : Nat) (tokens : Array Token) :
    run ⟨.gap, position, tokens⟩ gap = ⟨.gap, position + gap.length, tokens⟩ := by
  induction h generalizing position with
  | nil => rfl
  | @blank c cs hc _ ih =>
      have stepped : step ⟨.gap, position, tokens⟩ c = ⟨.gap, position + 1, tokens⟩ := by
        simp [step, stepGap, hc]
      rw [run_cons, stepped, ih, List.length_cons]
      congr 1
      omega
  | @line comment cs hcomment _ ih =>
      have semicolon : step ⟨.gap, position, tokens⟩ ';' =
          ⟨.lineComment, position + 1, tokens⟩ := rfl
      have newline (p : Nat) : step ⟨.lineComment, p, tokens⟩ '\n' = ⟨.gap, p + 1, tokens⟩ := rfl
      rw [List.cons_append, run_cons, semicolon, run_append, run_lineComment hcomment, run_cons,
        newline, ih]
      congr 1
      simp only [List.length_append, List.length_cons]
      omega
  | @block comment cs closed _ ih =>
      have opener : run ⟨.gap, position, tokens⟩ ['#', '|'] =
          ⟨.blockComment position 1 none, position + 2, tokens⟩ := rfl
      have split : '#' :: '|' :: comment ++ cs = ['#', '|'] ++ (comment ++ cs) := rfl
      rw [split, run_append, opener, run_append,
        (run_blockComment position 0 none (position + 2) tokens comment).1 closed, ih]
      congr 1
      simp only [List.length_append, List.length_cons, List.length_nil]
      omega

end ScopedLisp.Lexer
