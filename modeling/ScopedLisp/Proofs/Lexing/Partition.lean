import Mathlib.Data.List.TakeWhile
import ScopedLisp.Proofs.Lexing.Layout

/-!
# ScopedLisp.Proofs.Lexing.Partition

What the lexer makes of a text, said without the lexer: gaps and tokens take turns, each token at
its place and as long as it can be, up to the end of the text or up to a block comment
that is not closed (`Partition`).

* every text has a partition (`exists_partition`), and the lexer finds what it says
  (`Partition.finish_run`); so it has one only, and lexing is finding it (`lex_eq_iff`);
* a token lies where it says, and in front of it the text may go on in another way
  (`Partition.cut`);
* behind more text, a partition is the same but for its places (`Partition.shift`).
-/

namespace ScopedLisp

open Lexer Text

/-! ## Tokens in a text -/

/-- The token lies at `place`, where the text has `chars` and then `more`.  An atom goes on up to a
delimiter or the end of the text. -/
inductive Token.LiesAt (place : Nat) : Token → (chars more : List Char) → Prop
  | opening (more : List Char) : LiesAt place (.opening place) ['('] more
  | closing (more : List Char) : LiesAt place (.closing place) [')'] more
  | atom {chars more : List Char} (nonempty : chars ≠ []) (isAtom : Lexer.IsAtom chars)
      (ends : Delimited more) : LiesAt place (.symbol (String.ofList chars) place) chars more

namespace Token.LiesAt

variable {place : Nat} {token : Token} {chars more : List Char}

theorem toList_text (h : token.LiesAt place chars more) : token.text.toList = chars := by
  cases h <;> simp [Token.opening, Token.closing, Token.symbol]

theorem position (h : token.LiesAt place chars more) : token.position = some (place : Int) := by
  cases h <;> rfl

theorem chars_ne_nil (h : token.LiesAt place chars more) : chars ≠ [] := by
  cases h with
  | opening | closing => simp
  | atom nonempty => exact nonempty

/-- The lexer finds the token, and is then as if it were in a gap. -/
theorem finish_run (h : token.LiesAt place chars more) (found : Array Token) :
    (run ⟨.gap, place, found⟩ (chars ++ more)).finish =
      (run ⟨.gap, place + chars.length, found.push token⟩ more).finish := by
  cases h with
  | opening | closing => rfl
  | atom nonempty isAtom ends => exact finish_run_atom nonempty isAtom ends place found

end Token.LiesAt

namespace Lexer

/-! ## Partitions -/

/-- From `place` on, the characters `cs` are gaps and `tokens` that take turns, with a gap at the
end; or instead of that gap, there is a last line comment or, as the failure, a block comment that
is not closed. -/
inductive Partition : (place : Nat) → (cs : List Char) → List Token → Option ParseError → Prop
  | gap {place : Nat} {gap : List Char} : Layout gap → Partition place gap [] none
  | lineComment {place : Nat} {gap comment : List Char} : Layout gap → '\n' ∉ comment →
      Partition place (gap ++ ';' :: comment) [] none
  | openComment {place : Nat} {gap comment : List Char} : Layout gap →
      afterClosers 1 comment = none →
      Partition place (gap ++ '#' :: '|' :: comment) []
        (some (.unterminatedComment (place + gap.length : Nat)))
  | token {place : Nat} {gap chars more : List Char} {token : Token} {tokens : List Token}
      {failure : Option ParseError} : Layout gap → token.LiesAt (place + gap.length) chars more →
      Partition (place + gap.length + chars.length) more tokens failure →
      Partition place (gap ++ (chars ++ more)) (token :: tokens) failure

variable {place : Nat} {cs : List Char} {tokens : List Token} {failure : Option ParseError}

/-- A token may come first. -/
theorem Partition.cons {chars more : List Char} {token : Token}
    (lies : token.LiesAt place chars more)
    (rest : Partition (place + chars.length) more tokens failure) :
    Partition place (chars ++ more) (token :: tokens) failure :=
  .token .nil lies rest

/-- **The lexer finds what a partition says.** -/
theorem Partition.finish_run (h : Partition place cs tokens failure) (found : Array Token) :
    (run ⟨.gap, place, found⟩ cs).finish = ⟨found.toList ++ tokens, failure⟩ := by
  induction h generalizing found with
  | gap layout => simp [run_layout layout, finish]
  | @lineComment place gap comment layout hcomment =>
      have semicolon (p : Nat) : step ⟨.gap, p, found⟩ ';' = ⟨.lineComment, p + 1, found⟩ := rfl
      rw [run_append, run_layout layout, run_cons, semicolon, run_lineComment hcomment]
      simp [finish]
  | @openComment place gap comment layout unclosed =>
      have opener (p : Nat) : run ⟨.gap, p, found⟩ ['#', '|'] =
          ⟨.blockComment p 1 none, p + 2, found⟩ := rfl
      have split : '#' :: '|' :: comment = ['#', '|'] ++ comment := rfl
      rw [run_append, run_layout layout, split, run_append, opener,
        (run_blockComment _ 0 none _ found comment).2 unclosed, List.append_nil]
  | @token place gap chars more token tokens failure layout lies _ ih =>
      rw [run_append, run_layout layout, lies.finish_run, ih]
      simp

/-- A gap may begin with more layout. -/
theorem Partition.layout_append {gap : List Char} (layout : Layout gap)
    (h : Partition (place + gap.length) cs tokens failure) :
    Partition place (gap ++ cs) tokens failure := by
  cases h with
  | gap layout' => exact .gap (layout.append layout')
  | lineComment layout' hcomment =>
      rw [← List.append_assoc]
      exact .lineComment (layout.append layout') hcomment
  | @openComment _ gap' comment layout' unclosed =>
      rw [← List.append_assoc, Nat.add_assoc, ← List.length_append]
      exact .openComment (layout.append layout') unclosed
  | @token _ gap' chars more token tokens _ layout' lies rest =>
      have length : place + gap.length + gap'.length = place + (gap ++ gap').length := by
        rw [List.length_append, Nat.add_assoc]
      rw [length] at lies rest
      rw [← List.append_assoc]
      exact .token (layout.append layout') lies rest

/-! ## Every text has a partition -/

/-- The characters up to the first that is not as `p` says. -/
theorem exists_span (p : Char → Bool) (cs : List Char) :
    ∃ front back, cs = front ++ back ∧ (∀ c ∈ front, p c = true) ∧
      ∀ c ∈ back.head?, p c = false := by
  refine ⟨cs.takeWhile p, cs.dropWhile p, List.takeWhile_append_dropWhile.symm,
    fun c mem => List.mem_takeWhile_imp mem, fun c mem => ?_⟩
  have stopped := List.head?_dropWhile_not p cs
  rw [Option.mem_def.mp mem] at stopped
  exact stopped

/-- A line comment ends with its line or with the text. -/
theorem exists_line (cs : List Char) :
    '\n' ∉ cs ∨ ∃ comment rest, cs = comment ++ '\n' :: rest ∧ '\n' ∉ comment := by
  by_cases newline : '\n' ∈ cs
  · exact Or.inr (List.eq_append_cons_of_mem newline)
  · exact Or.inl newline

/-- What a text begins with: layout, a token, or a comment that goes on to its end. -/
theorem exists_piece (place : Nat) (c : Char) (cs : List Char) :
    (∃ gap rest, c :: cs = gap ++ rest ∧ gap ≠ [] ∧ Layout gap) ∨
    (∃ token chars more, c :: cs = chars ++ more ∧ Token.LiesAt place token chars more) ∨
    (∃ comment, c :: cs = ';' :: comment ∧ '\n' ∉ comment) ∨
    (∃ comment, c :: cs = '#' :: '|' :: comment ∧ afterClosers 1 comment = none) := by
  by_cases delimiter : isDelimiter c = true
  · simp only [isDelimiter, Bool.or_eq_true, beq_iff_eq] at delimiter
    rcases delimiter with ((blank | rfl) | rfl) | rfl
    · exact Or.inl ⟨[c], cs, rfl, by simp, .blank blank .nil⟩
    · exact Or.inr (Or.inl ⟨_, _, cs, rfl, .opening cs⟩)
    · exact Or.inr (Or.inl ⟨_, _, cs, rfl, .closing cs⟩)
    · rcases exists_line cs with endless | ⟨comment, rest, rfl, hcomment⟩
      · exact Or.inr (Or.inr (Or.inl ⟨cs, rfl, endless⟩))
      · exact Or.inl ⟨';' :: comment ++ ['\n'], rest, by simp, by simp, .line hcomment .nil⟩
  by_cases opener : ['#', '|'] <+: c :: cs
  · obtain ⟨comment, split⟩ := opener
    rw [← split]
    cases closed : afterClosers 1 comment with
    | none => exact Or.inr (Or.inr (Or.inr ⟨comment, rfl, closed⟩))
    | some rest =>
        obtain ⟨inside, rfl, ended⟩ := afterClosers_eq_some closed
        exact Or.inl ⟨'#' :: '|' :: inside ++ [], rest, by simp, by simp, .block ended .nil⟩
  · obtain ⟨chars, more, split, undelimited, ends⟩ :=
      exists_span (fun d => !isDelimiter d) (c :: cs)
    have nonempty : chars ≠ [] := by
      rintro rfl
      rw [List.nil_append] at split
      have := ends c (by rw [← split]; rfl)
      simp [delimiter] at this
    refine Or.inr (Or.inl ⟨_, chars, more, split, .atom nonempty ⟨?_, ?_⟩ ?_⟩)
    · intro d mem
      simpa using undelimited d mem
    · intro begins
      exact opener (split ▸ begins.trans (List.prefix_append chars more))
    · intro d mem
      simpa using ends d mem

/-- **Every text has a partition**, by its first piece and then what is left. -/
theorem exists_partition (place : Nat) (cs : List Char) :
    ∃ tokens failure, Partition place cs tokens failure := by
  induction length : cs.length using Nat.strong_induction_on generalizing place cs with
  | _ n ih =>
      subst length
      cases cs with
      | nil => exact ⟨[], none, .gap .nil⟩
      | cons c cs =>
          rcases exists_piece place c cs with ⟨gap, rest, split, nonempty, layout⟩ |
            ⟨token, chars, more, split, lies⟩ | ⟨comment, split, endless⟩ |
            ⟨comment, split, unclosed⟩
          · have shorter : rest.length < (c :: cs).length := by
              rw [split, List.length_append]
              have := List.length_pos_iff.mpr nonempty
              omega
            obtain ⟨tokens, failure, h⟩ := ih _ shorter (place + gap.length) rest rfl
            rw [split]
            exact ⟨tokens, failure, h.layout_append layout⟩
          · have shorter : more.length < (c :: cs).length := by
              rw [split, List.length_append]
              have := List.length_pos_iff.mpr lies.chars_ne_nil
              omega
            obtain ⟨tokens, failure, h⟩ := ih _ shorter (place + chars.length) more rfl
            rw [split]
            exact ⟨token :: tokens, failure, .cons lies h⟩
          · rw [split]
            exact ⟨[], none, .lineComment .nil endless⟩
          · rw [split]
            exact ⟨[], _, .openComment .nil unclosed⟩

end Lexer

/-- **Lexing a text is finding its partition**, of which there is one. -/
theorem lex_eq_iff (source : String) (tokens : List Token) (failure : Option ParseError) :
    lex source = ⟨tokens, failure⟩ ↔ Partition 0 source.toList tokens failure := by
  have found {tokens : List Token} {failure : Option ParseError}
      (h : Partition 0 source.toList tokens failure) : lex source = ⟨tokens, failure⟩ := by
    simpa [lex, start] using h.finish_run #[]
  constructor
  · intro lexed
    obtain ⟨tokens', failure', h⟩ := exists_partition 0 source.toList
    rw [found h, TokenStream.mk.injEq] at lexed
    obtain ⟨rfl, rfl⟩ := lexed
    exact h
  · exact found

/-- The partition of a text, as the lexer finds it. -/
theorem partition_lex (source : String) :
    Partition 0 source.toList (lex source).pending (lex source).failure :=
  (lex_eq_iff source _ _).mp rfl

/-! ## Cutting a text in front of a token -/

namespace Lexer

/-- Whether an atom ends there is told by the first character. -/
theorem Delimited.append {front back back' : List Char} (h : Delimited (front ++ back))
    (hback : Delimited back → Delimited back') : Delimited (front ++ back') := by
  cases front with
  | nil => exact hback h
  | cons c front => exact h

theorem Delimited.of_append {front back : List Char} (h : Delimited (front ++ back)) :
    Delimited front := by
  cases front with
  | nil => simp [Delimited]
  | cons c front => exact h

end Lexer

/-- A token lies as it did if an atom ends where it did. -/
theorem Token.LiesAt.follow {place : Nat} {token : Token} {chars more more' : List Char}
    (h : token.LiesAt place chars more) (hmore : Delimited more → Delimited more') :
    token.LiesAt place chars more' := by
  cases h with
  | opening => exact .opening more'
  | closing => exact .closing more'
  | atom nonempty isAtom ends => exact .atom nonempty isAtom (hmore ends)

namespace Lexer

variable {place : Nat} {cs : List Char} {failure : Option ParseError}

/-- **A text may be cut in front of any of its tokens.** The token lies there, the tokens behind it
are those of what follows, and what is in front of it stays as it is if the text goes on there with
something else, behind which no atom is longer than it was. -/
theorem Partition.cut {before after : List Token} {token : Token}
    (h : Partition place cs (before ++ token :: after) failure) :
    ∃ front chars more, cs = front ++ (chars ++ more) ∧
      token.LiesAt (place + front.length) chars more ∧
      Partition (place + front.length + chars.length) more after failure ∧
      ∀ tail tokens failure', (Delimited (chars ++ more) → Delimited tail) →
        Partition (place + front.length) tail tokens failure' →
        Partition place (front ++ tail) (before ++ tokens) failure' := by
  induction before generalizing place cs with
  | nil =>
      rw [List.nil_append] at h
      cases h with
      | @token _ gap chars more _ _ _ layout lies rest =>
          exact ⟨gap, chars, more, rfl, lies, rest,
            fun tail tokens failure' _ h => h.layout_append layout⟩
  | cons first before ih =>
      rw [List.cons_append] at h
      cases h with
      | @token _ gap chars more _ _ _ layout lies rest =>
          obtain ⟨front, chars', more', rfl, lies', rest', goOn⟩ := ih rest
          have length : place + gap.length + chars.length + front.length =
              place + (gap ++ (chars ++ front)).length := by
            simp only [List.length_append]
            omega
          rw [length] at lies' rest' goOn
          refine ⟨gap ++ (chars ++ front), chars', more', by simp, lies', rest',
            fun tail tokens failure' ends h => ?_⟩
          have follows := lies.follow fun ended => Delimited.append ended ends
          simpa using Partition.token layout follows (goOn tail tokens failure' ends h)

/-- No token lies in front of the place where the text begins. -/
theorem Partition.le_position {tokens : List Token} (h : Partition place cs tokens failure) :
    ∀ token ∈ tokens, ∃ p : Nat, token.position = some (p : Int) ∧ place ≤ p := by
  intro token mem
  obtain ⟨before, after, rfl⟩ := List.append_of_mem mem
  obtain ⟨front, chars, more, _, lies, _⟩ := h.cut
  exact ⟨place + front.length, lies.position, Nat.le_add_right place front.length⟩

/-- A partition fails at a block comment that is not closed, and the text in front of it has the
same tokens and does not fail. -/
theorem Partition.unclosed {tokens : List Token} {error : ParseError}
    (h : Partition place cs tokens (some error)) :
    ∃ front comment, cs = front ++ '#' :: '|' :: comment ∧ afterClosers 1 comment = none ∧
      Partition place front tokens none ∧
      error = .unterminatedComment (place + front.length : Nat) := by
  induction tokens generalizing place cs with
  | nil =>
      cases h with
      | @openComment _ gap comment layout unclosed =>
          exact ⟨gap, comment, rfl, unclosed, .gap layout, rfl⟩
  | cons token tokens ih =>
      cases h with
      | @token _ gap chars more _ _ _ layout lies rest =>
          obtain ⟨front, comment, rfl, unclosed, closed, rfl⟩ := ih rest
          have follows := lies.follow Delimited.of_append
          refine ⟨gap ++ (chars ++ front), comment, by simp, unclosed,
            .token layout follows closed, ?_⟩
          congr 2
          simp only [List.length_append]
          omega

end Lexer

/-! ## Texts at another place -/

/-- The same token in a text with `n` more characters in front. -/
def Token.shift (n : Int) (token : Token) : Token :=
  { token with position := token.position.map (· + n) }

theorem Token.LiesAt.shift {place : Nat} {token : Token} {chars more : List Char}
    (h : token.LiesAt place chars more) (n : Nat) :
    (token.shift n).LiesAt (place + n) chars more := by
  cases h with
  | opening => exact .opening more
  | closing => exact .closing more
  | atom nonempty isAtom ends => exact .atom nonempty isAtom ends

/-- A text with more in front of it has the same tokens and fails alike, all of it as far behind. -/
theorem Lexer.Partition.shift {place : Nat} {cs : List Char} {tokens : List Token}
    {failure : Option ParseError} (h : Partition place cs tokens failure) (n : Nat) :
    Partition (place + n) cs (tokens.map (Token.shift n)) (failure.map (ParseError.shift n)) := by
  induction h with
  | gap layout => exact .gap layout
  | lineComment layout endless => exact .lineComment layout endless
  | @openComment place gap comment layout unclosed =>
      have moved : ((place + gap.length : Nat) : Int) + n = (place + n + gap.length : Nat) := by
        omega
      rw [Option.map_some, ParseError.shift, moved]
      exact .openComment layout unclosed
  | @token place gap chars more token tokens failure layout lies _ ih =>
      have lies' := lies.shift n
      rw [Nat.add_right_comm] at lies'
      rw [Nat.add_right_comm _ chars.length, Nat.add_right_comm place] at ih
      exact .token layout lies' ih

/-! ## Lexing -/

/-- **Lexing divides a text faithfully.** It finds the tokens of the one partition of the text, and
fails as that does.  Each token lies at its place, is not empty, and ends before the next one
begins; an atom among them goes on as far as it can.  If a text fails, then at a block comment that
it does not close, with the tokens of what is in front of it. -/
theorem lexing_faithful (source : String) :
    (∀ tokens failure,
      lex source = ⟨tokens, failure⟩ ↔ Partition 0 source.toList tokens failure) ∧
    (∀ before token after, (lex source).pending = before ++ token :: after →
      ∃ front back, source = front ++ token.text ++ back ∧
        token.position = some (front.length : Int) ∧ token.text ≠ "" ∧
        (token.kind = .symbol → Lexer.IsAtom token.text.toList ∧ Delimited back.toList) ∧
        ∀ next ∈ after, ∃ place : Nat, next.position = some (place : Int) ∧
          front.length + token.text.length ≤ place) ∧
    ∀ error, (lex source).failure = some error →
      ∃ front comment, source.toList = front ++ '#' :: '|' :: comment ∧
        afterClosers 1 comment = none ∧ Partition 0 front (lex source).pending none ∧
        error = .unterminatedComment front.length ∧
        error.position = some (front.length : Int) ∧ error.incomplete = true := by
  refine ⟨lex_eq_iff source, fun before token after found => ?_, fun error failed => ?_⟩
  · have partition := partition_lex source
    rw [found] at partition
    obtain ⟨front, chars, more, split, lies, rest, _⟩ := partition.cut
    rw [Nat.zero_add] at lies rest
    have text := lies.toList_text
    refine ⟨String.ofList front, String.ofList more, ?_, ?_, ?_, fun symbol => ?_,
      fun next mem => ?_⟩
    · apply String.toList_injective
      simp [split, text]
    · simpa using lies.position
    · intro empty
      rw [empty] at text
      exact lies.chars_ne_nil text.symm
    · rw [text, String.toList_ofList]
      cases lies with
      | opening | closing => cases symbol
      | atom _ isAtom ends => exact ⟨isAtom, ends⟩
    · obtain ⟨place, position, behind⟩ := rest.le_position next mem
      refine ⟨place, position, ?_⟩
      rw [String.length_ofList, ← String.length_toList, text]
      exact behind
  · have partition := partition_lex source
    rw [failed] at partition
    obtain ⟨front, comment, split, unclosed, closed, rfl⟩ := partition.unclosed
    rw [Nat.zero_add]
    exact ⟨front, comment, split, unclosed, closed, rfl, rfl, rfl⟩

/-- Atoms with `#` and `|` in them beside comments that nest, and a comment that `|#` would have to
close. -/
theorem lexing_faithful_hash :
    lex "|#(a#|b #|c #|d|# |#;)\n#) #|#" =
        ⟨[.symbol "|#" 0, .opening 2, .symbol "a#|b" 3, .symbol "#" 23, .closing 24],
          some (.unterminatedComment 26)⟩ ∧
      (∃ front back, "|#(a#|b #|c #|d|# |#;)\n#) #|#" = front ++ "a#|b" ++ back ∧
        some 3 = some (front.length : Int) ∧ "a#|b" ≠ "" ∧
        Lexer.IsAtom "a#|b".toList ∧ Delimited back.toList) ∧
      ∃ front comment, "|#(a#|b #|c #|d|# |#;)\n#) #|#".toList = front ++ '#' :: '|' :: comment ∧
        afterClosers 1 comment = none := by
  have lexed : lex "|#(a#|b #|c #|d|# |#;)\n#) #|#" =
      ⟨[.symbol "|#" 0, .opening 2, .symbol "a#|b" 3, .symbol "#" 23, .closing 24],
        some (.unterminatedComment 26)⟩ := by decide
  obtain ⟨_, slices, failures⟩ := lexing_faithful "|#(a#|b #|c #|d|# |#;)\n#) #|#"
  rw [lexed] at slices failures
  obtain ⟨front, back, split, position, nonempty, maximal, _⟩ :=
    slices [.symbol "|#" 0, .opening 2] (.symbol "a#|b" 3) [.symbol "#" 23, .closing 24] rfl
  obtain ⟨front', comment, split', unclosed, _⟩ := failures _ rfl
  exact ⟨lexed, ⟨front, back, split, position, nonempty, maximal rfl⟩,
    front', comment, split', unclosed⟩

end ScopedLisp
