import ScopedLisp.Proofs.Reading.Completion
import ScopedLisp.Proofs.Reading.Concatenation
import ScopedLisp.Text.Newline

/-!
# ScopedLisp.Proofs.Reading.Lines

Reading line by line.  Where a text that ends with a line end can be read, it has no influence on
what is read behind it (`readAll_append_iff`).

`Turns` is what comes of lines that are collected until they can be read.  If a text can be read,
then its lines are read in turns, and in all of these together nothing else is read than in
the text as a whole (`exists_turns`).
-/

namespace ScopedLisp

/-- Behind a text that could be read, and a line end, everything is read as it would be alone. -/
theorem readAll_append_iff {a b : String} {es : List Expr} (line : '\n' ∈ a.toList.getLast?)
    (h : readAll a = .ok es) (gs : List Expr) :
    readAll (a ++ b) = .ok gs ↔ ∃ fs, readAll b = .ok fs ∧ gs = es ++ fs := by
  rw [readAll_append line h]
  cases readAll b with
  | ok fs => simp [Except.map, Except.mapError, eq_comm]
  | error error => simp [Except.map, Except.mapError]

/-! ## Lines -/

namespace Text

/-- Pieces of a text, each of which ends a line; only the last may not. -/
inductive Lines : List String → Prop where
  | none : Lines []
  | last (line : String) : Lines [line]
  | line {line : String} {lines : List String} : '\n' ∈ line.toList.getLast? → Lines lines →
      Lines (line :: lines)

/-- The lines after the first. -/
theorem Lines.tail {line : String} {lines : List String} (h : Lines (line :: lines)) :
    Lines lines := by
  cases h with
  | last => exact .none
  | line _ more => exact more

/-- A line that another follows ends in a line break. -/
theorem Lines.ended {line : String} {lines : List String} (h : Lines (line :: lines)) :
    lines = [] ∨ '\n' ∈ line.toList.getLast? := by
  cases h with
  | last => exact Or.inl rfl
  | line ended _ => exact Or.inr ended

/-- The lines of a text, each with its line end. -/
def linesOf (source : String) : List String := (splitLines source.toList).map String.ofList

/-- The lines of a text make it up. -/
theorem join_linesOf (source : String) : String.join (linesOf source) = source := by
  apply String.toList_injective
  simp [linesOf, String.toList_join, List.flatMap_map, flatten_splitLines]

/-- A text is split behind each of its line breaks. -/
theorem lines_splitLines (cs : List Char) : Lines ((splitLines cs).map String.ofList) := by
  induction cs with
  | nil => exact .none
  | cons c rest ih =>
      rw [splitLines]
      split
      next ended =>
        subst ended
        exact .line (by simp) ih
      next =>
        split
        · exact .last _
        next line lines split =>
          rw [split, List.map_cons] at ih
          rcases ih.ended with none | ended
          · rw [List.map_eq_nil_iff.mp none]
            exact .last _
          · refine .line ?_ ih.tail
            rw [String.toList_ofList] at ended ⊢
            rw [List.getLast?_cons, Option.mem_def.mp ended]
            rfl

/-- A text is cut after each of its line ends. -/
theorem lines_linesOf (source : String) : Lines (linesOf source) := lines_splitLines source.toList

end Text

/-! ## Taking turns -/

/-- What comes of lines that are collected until they can be read: nothing yet, or the expressions read.
In front of the first line, `waiting` has been collected. -/
inductive Turns : (waiting : String) → (lines : List String) → List (Option (List Expr)) → Prop where
  | done {waiting : String} : Turns waiting [] []
  | waits {waiting line : String} {lines : List String} {turns : List (Option (List Expr))}
      {error : ParseError} : readAll (waiting ++ line) = .error error → error.incomplete = true →
      Turns (waiting ++ line) lines turns → Turns waiting (line :: lines) (none :: turns)
  | reads {waiting line : String} {lines : List String} {turns : List (Option (List Expr))}
      {es : List Expr} : readAll (waiting ++ line) = .ok es → Turns "" lines turns →
      Turns waiting (line :: lines) (some es :: turns)

theorem readAll_empty : readAll "" = .ok [] := by cbv

/-- Where a text can be read, it fails at the end of a line only because more is to come. -/
theorem incomplete_of_readAll_append {a b : String} {es : List Expr} (h : readAll (a ++ b) = .ok es)
    {error : ParseError} (failed : readAll a = .error error) : error.incomplete = true := by
  rw [readAll_eq_error_iff, Reader.stop] at failed
  cases hrun : Reader.start.run (lex a).pending with
  | mk last failure =>
      cases failure with
      | some other =>
          -- a token that cannot be fed would be there in the longer text too
          rw [readAll_append_error a b hrun] at h
          cases h
      | none =>
          rw [hrun, Option.none_or] at failed
          exact Reader.incomplete_of_ending failed

/-- **Line by line**: a text that can be read is read in turns, and in all of them together just what
is read in the whole text. -/
theorem exists_turns {lines : List String} (cut : Text.Lines lines) {waiting : String}
    (fresh : waiting = "" ∨ ∃ error, readAll waiting = .error error) {es : List Expr}
    (h : readAll (waiting ++ String.join lines) = .ok es) :
    ∃ turns, Turns waiting lines turns ∧ turns.reduceOption.flatten = es := by
  induction lines generalizing waiting es with
  | nil =>
      rw [String.join_nil, String.append_empty] at h
      rcases fresh with rfl | ⟨error, failed⟩
      · rw [readAll_empty] at h
        cases h
        exact ⟨[], .done, rfl⟩
      · rw [h] at failed
        cases failed
  | cons line lines ih =>
      rw [String.join_cons, ← String.append_assoc] at h
      cases read : readAll (waiting ++ line) with
      | error error =>
          have incomplete := incomplete_of_readAll_append h read
          obtain ⟨turns, taken, rfl⟩ := ih cut.tail (Or.inr ⟨error, read⟩) h
          exact ⟨none :: turns, .waits read incomplete taken, rfl⟩
      | ok first =>
          obtain ⟨rest, hrest, rfl⟩ : ∃ rest, readAll ("" ++ String.join lines) = .ok rest ∧
              es = first ++ rest := by
            rw [String.empty_append]
            rcases cut.ended with rfl | ended
            · rw [String.join_nil, String.append_empty, read] at h
              cases h
              exact ⟨[], readAll_empty, (List.append_nil _).symm⟩
            · refine (readAll_append_iff ?_ read es).mp h
              rw [String.toList_append, List.getLast?_append, Option.mem_def.mp ended]
              rfl
          obtain ⟨turns, taken, rfl⟩ := ih cut.tail (Or.inl rfl) hrest
          exact ⟨some first :: turns, .reads read taken, rfl⟩

end ScopedLisp
