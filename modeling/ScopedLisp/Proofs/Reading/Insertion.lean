import ScopedLisp.Proofs.Lexing.Partition
import ScopedLisp.Proofs.Reading

/-!
# ScopedLisp.Proofs.Reading.Insertion

Layout does not matter.  A text may be cut beside any of its tokens, and layout put there that
ends an atom: the gap becomes longer, what follows is moved, and the tokens are the same but for
their places (`Partition.insert`).  So the same expressions are read.
-/

namespace ScopedLisp

open Lexer Text

/-- Does the token begin or end at `place`: right in front of its first character, or right behind
its last one? -/
def Token.Borders (token : Token) (place : Nat) : Prop :=
  token.position = some (place : Int) ∨
    token.position.map (· + (token.text.length : Int)) = some (place : Int)

/-- A place has no part in what a token contributes. -/
theorem Token.lexeme?_shift (n : Int) (token : Token) :
    (token.shift n).lexeme? = token.lexeme? := rfl

/-- Tokens contribute the same further on. -/
theorem map_lexeme?_shift (n : Int) (tokens : List Token) :
    (tokens.map (Token.shift n)).map Token.lexeme? = tokens.map Token.lexeme? := by
  simp only [List.map_map, Function.comp_def, Token.lexeme?_shift]

/-- A token that borders on a place begins there or ends there. -/
theorem Token.LiesAt.borders_iff {place here : Nat} {token : Token} {chars more : List Char}
    (h : token.LiesAt place chars more) :
    token.Borders here ↔ here = place ∨ here = place + chars.length := by
  have length : token.text.length = chars.length := by
    rw [← String.length_toList, h.toList_text]
  rw [Token.Borders, h.position, length, Option.map_some, Option.some.injEq, Option.some.injEq]
  omega

namespace Lexer

variable {place : Nat} {tokens : List Token} {failure : Option ParseError}

/-- What begins with layout that ends an atom ends an atom. -/
theorem Delimited.layout_append {gap : List Char} (nonempty : gap ≠ []) (ends : Delimited gap)
    (more : List Char) : Delimited (gap ++ more) := by
  cases gap with
  | nil => exact absurd rfl nonempty
  | cons c gap => exact ends

/-- **Layout may be put beside a token**, if it ends an atom: the tokens contribute the same. -/
theorem Partition.insert {front back gap : List Char} {token : Token}
    (h : Partition place (front ++ back) tokens failure) (mem : token ∈ tokens)
    (borders : token.Borders (place + front.length)) (layout : Layout gap) (nonempty : gap ≠ [])
    (ends : Delimited gap) :
    ∃ tokens', Partition place (front ++ (gap ++ back)) tokens'
        (failure.map (ParseError.shift gap.length)) ∧
      tokens'.map Token.lexeme? = tokens.map Token.lexeme? := by
  obtain ⟨before, after, rfl⟩ := List.append_of_mem mem
  obtain ⟨front', chars, more, split, lies, rest, goOn⟩ := h.cut
  rcases lies.borders_iff.mp borders with here | here
  · -- in front of the token, which moves
    obtain ⟨rfl, rfl⟩ := List.append_inj split (by omega)
    have moved := (Partition.cons lies rest).shift gap.length
    refine ⟨before ++ (token :: after).map (Token.shift gap.length),
      goOn _ _ _ (fun _ => ends.layout_append nonempty _) (moved.layout_append layout), ?_⟩
    rw [List.map_append, List.map_append, map_lexeme?_shift]
  · -- behind the token, which stays
    rw [← List.append_assoc] at split
    obtain ⟨rfl, rfl⟩ := List.append_inj split (by rw [List.length_append]; omega)
    have follows := lies.follow fun _ => ends.layout_append nonempty back
    have moved := (rest.shift gap.length).layout_append layout
    rw [List.append_assoc]
    refine ⟨before ++ token :: after.map (Token.shift gap.length),
      goOn _ _ _ (fun ended => ended.append fun _ => ends.layout_append nonempty back)
        (.cons follows moved), ?_⟩
    rw [List.map_append, List.map_append, List.map_cons, List.map_cons, map_lexeme?_shift]

end Lexer

/-- **Layout does not matter.** White space and complete comments, of which the first character is
white space or a semicolon, may be put right in front of any token or right behind it: the same is
read. -/
theorem readAll_insert {front back : String} {es : List Expr}
    (h : readAll (front ++ back) = .ok es) {token : Token}
    (mem : token ∈ (lex (front ++ back)).pending) (borders : token.Borders front.length)
    {gap : String} (layout : Layout gap.toList)
    (begins : ∃ c ∈ gap.toList.head?, isBlank c = true ∨ c = ';') :
    readAll (front ++ gap ++ back) = .ok es := by
  obtain ⟨c, head, separates⟩ := begins
  have nonempty : gap.toList ≠ [] := by
    intro empty
    simp [empty] at head
  have ends : Delimited gap.toList := by
    intro d hd
    obtain rfl : c = d := Option.some.inj (head.symm.trans hd)
    rcases separates with blank | rfl
    · simp [isDelimiter, blank]
    · rfl
  obtain ⟨closed, spelling⟩ := (readAll_eq_ok_iff_spelling _ es).mp h
  have partition := partition_lex (front ++ back)
  rw [closed, String.toList_append] at partition
  obtain ⟨tokens, partition', same⟩ :=
    partition.insert mem (by simpa [String.length_toList] using borders) layout nonempty ends
  have lexed : lex (front ++ gap ++ back) = ⟨tokens, none⟩ := by
    rw [lex_eq_iff]
    simpa using partition'
  rw [readAll_eq_ok_iff_spelling, lexed]
  exact ⟨rfl, same.trans spelling⟩

/-- A line comment and a block comment right behind an atom that ends in `#`, and a block comment
right in front of an atom that is `#`. -/
theorem readAll_insert_comments :
    readAll ("(a|#" ++ ";)\n#|#|(|#|#" ++ " #)") = .ok [.list [.atom "a|#", .atom "#"]] ∧
      readAll ("(a|# " ++ " #|;|#" ++ "#)") = .ok [.list [.atom "a|#", .atom "#"]] := by
  constructor
  · have read : readAll ("(a|#" ++ " #)") = .ok [.list [.atom "a|#", .atom "#"]] := by cbv
    have mem : Token.symbol "a|#" 1 ∈ (lex ("(a|#" ++ " #)")).pending := by decide
    have layout : Layout ";)\n#|#|(|#|#".toList :=
      @Layout.line [')'] _ (by decide) (@Layout.block "#|(|#|#".toList [] (by decide) .nil)
    exact readAll_insert read mem (Or.inr rfl) layout ⟨';', rfl, Or.inr rfl⟩
  · have read : readAll ("(a|# " ++ "#)") = .ok [.list [.atom "a|#", .atom "#"]] := by cbv
    have mem : Token.symbol "#" 5 ∈ (lex ("(a|# " ++ "#)")).pending := by decide
    have layout : Layout " #|;|#".toList :=
      .blank rfl (@Layout.block ";|#".toList [] (by decide) .nil)
    exact readAll_insert read mem (Or.inl rfl) layout ⟨' ', rfl, Or.inl rfl⟩

end ScopedLisp
