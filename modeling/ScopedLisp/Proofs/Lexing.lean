import Mathlib.Data.List.Induction
import ScopedLisp.Token.Lexer

/-!
# ScopedLisp.Proofs.Lexing

What every run of the lexer keeps:

* the tokens found so far stay as they are, and more are added behind them
  (`tokens_prefix_run`), so a longer text begins with the same tokens;
* every token is one that a source text can have (`Token.InSource`): a parenthesis, or
  an atom of characters that can be written as one atom (`IsAtom`).

Of the other direction, `run_atom` reads such characters as one atom, which a delimiter or
the end of the text ends (`finish_run_atom`).
-/

namespace ScopedLisp

open Text

/-! ## Atoms and tokens of a source text -/

/-- Can the characters be written as one atom?  No delimiter is among them, and they do not begin a
block comment. -/
def Lexer.IsAtom (chars : List Char) : Prop :=
  (∀ c ∈ chars, isDelimiter c = false) ∧ ¬['#', '|'] <+: chars

instance (chars : List Char) : Decidable (Lexer.IsAtom chars) :=
  -- over the characters of the list: there is also an instance over all characters
  haveI : Decidable (∀ c ∈ chars, Lexer.isDelimiter c = false) := List.decidableBAll _ chars
  inferInstanceAs (Decidable (_ ∧ _))

/-- The tokens that a source text can have. -/
inductive Token.InSource : Token → Prop
  | opening (position : Nat) : InSource (.opening position)
  | closing (position : Nat) : InSource (.closing position)
  | atom {chars : List Char} (position : Nat) (nonempty : chars ≠ [])
      (isAtom : Lexer.IsAtom chars) : InSource (.symbol (String.ofList chars) position)

namespace Lexer

/-- An atom goes on with any character that is no delimiter, unless a block comment would begin. -/
theorem IsAtom.append_singleton {chars : List Char} {c : Char} (h : IsAtom chars)
    (hne : chars ≠ []) (hc : isDelimiter c = false) (hstart : ¬(chars = ['#'] ∧ c = '|')) :
    IsAtom (chars ++ [c]) := by
  obtain ⟨undelimited, notComment⟩ := h
  constructor
  · intro d hd
    rcases List.mem_append.mp hd with hd | hd
    · exact undelimited d hd
    · rw [List.mem_singleton.mp hd]
      exact hc
  · intro hpre
    rcases chars with _ | ⟨a, _ | ⟨b, rest⟩⟩
    · exact hne rfl
    · obtain ⟨tail, htail⟩ := hpre
      simp only [List.cons_append, List.nil_append, List.cons.injEq] at htail
      exact hstart ⟨by rw [htail.1], htail.2.1.symm⟩
    · obtain ⟨tail, htail⟩ := hpre
      simp only [List.cons_append, List.nil_append, List.cons.injEq] at htail
      exact notComment ⟨rest, by rw [← htail.1, ← htail.2.1]; rfl⟩

/-- What an atom begins with is an atom. -/
theorem IsAtom.of_append {chars more : List Char} (h : IsAtom (chars ++ more)) : IsAtom chars :=
  ⟨fun c hc => h.1 c (List.mem_append_left more hc),
    fun hpre => h.2 (hpre.trans (List.prefix_append chars more))⟩

/-! ## Invariants of a run -/

/-- A lexer that has found tokens of a source text only, and whose atom, if it is in one, could end
at once. -/
structure Sound (lexer : Lexer) : Prop where
  tokens : ∀ token ∈ lexer.tokens, token.InSource
  atom : ∀ start chars, lexer.mode = .atom start chars → chars ≠ [] ∧ IsAtom chars.reverse

/-- At the start nothing has been found yet. -/
theorem sound_start : start.Sound where
  tokens token h := by simp [start] at h
  atom position chars h := by simp [start] at h

/-- A further token of a source text. -/
theorem inSource_of_mem_push {tokens : Array Token} {found : Token}
    (htokens : ∀ token ∈ tokens, token.InSource) (hfound : found.InSource) :
    ∀ token ∈ tokens.push found, token.InSource := by
  intro token h
  rcases Array.mem_push.mp h with h | rfl
  · exact htokens token h
  · exact hfound

/-- A character outside of atoms and comments begins one, or is a token or a blank. -/
theorem sound_stepGap (position : Nat) {tokens : Array Token}
    (h : ∀ token ∈ tokens, token.InSource) (c : Char) : (stepGap position tokens c).Sound := by
  unfold stepGap
  split
  · exact ⟨h, by simp⟩
  split
  · exact ⟨h, by simp⟩
  split
  · exact ⟨inSource_of_mem_push h (.opening position), by simp⟩
  split
  · exact ⟨inSource_of_mem_push h (.closing position), by simp⟩
  next blank semicolon opening closing =>
  refine ⟨h, fun start chars eq => ?_⟩
  cases eq
  refine ⟨List.cons_ne_nil _ _, ?_, ?_⟩
  · simp [isDelimiter, blank, semicolon, opening, closing]
  · rintro ⟨tail, htail⟩
    simp at htail

/-- Every character keeps the invariant. -/
theorem Sound.step {lexer : Lexer} (h : lexer.Sound) (c : Char) : (lexer.step c).Sound := by
  obtain ⟨mode, position, tokens⟩ := lexer
  obtain ⟨htokens, hatom⟩ := h
  cases mode with
  | gap => exact sound_stepGap position htokens c
  | lineComment =>
      refine ⟨htokens, fun start chars eq => ?_⟩
      simp only [Lexer.step] at eq
      split at eq <;> cases eq
  | blockComment start depth before =>
      refine ⟨htokens, fun start chars eq => ?_⟩
      simp only [Lexer.step, stepBlock] at eq
      repeat' split at eq
      all_goals cases eq
  | atom start chars =>
      obtain ⟨hne, isAtom⟩ := hatom start chars rfl
      have hne' : chars.reverse ≠ [] := by simpa using hne
      simp only [Lexer.step]
      split
      · exact ⟨htokens, by simp⟩
      next hstart =>
      split
      · exact sound_stepGap position (inSource_of_mem_push htokens (.atom start hne' isAtom)) c
      next hc =>
      refine ⟨htokens, fun start' chars' eq => ?_⟩
      cases eq
      refine ⟨List.cons_ne_nil _ _, ?_⟩
      rw [List.reverse_cons]
      refine isAtom.append_singleton hne' (Bool.eq_false_iff.mpr hc) ?_
      rintro ⟨hchars, hbar⟩
      exact hstart ⟨by simpa using hchars, hbar⟩

/-- A whole run keeps the invariant. -/
theorem Sound.run {lexer : Lexer} (h : lexer.Sound) (cs : List Char) : (lexer.run cs).Sound := by
  induction cs generalizing lexer with
  | nil => exact h
  | cons c cs ih => exact ih (h.step c)

/-! ## Tokens found so far -/

/-- A character in a gap adds a token or none. -/
theorem tokens_prefix_stepGap (position : Nat) (tokens : Array Token) (c : Char) :
    tokens.toList <+: (stepGap position tokens c).tokens.toList := by
  unfold stepGap
  repeat' split
  all_goals simp

/-- A character never takes back a token. -/
theorem tokens_prefix_step (lexer : Lexer) (c : Char) :
    lexer.tokens.toList <+: (lexer.step c).tokens.toList := by
  obtain ⟨mode, position, tokens⟩ := lexer
  cases mode with
  | gap => exact tokens_prefix_stepGap position tokens c
  | lineComment | blockComment => exact List.prefix_rfl
  | atom start chars =>
      simp only [Lexer.step]
      split
      · exact List.prefix_rfl
      split
      · refine List.IsPrefix.trans ?_ (tokens_prefix_stepGap position _ c)
        simp
      · exact List.prefix_rfl

/-- What has been found is not lost. -/
theorem tokens_prefix_run (lexer : Lexer) (cs : List Char) :
    lexer.tokens.toList <+: (lexer.run cs).tokens.toList := by
  induction cs generalizing lexer with
  | nil => exact List.prefix_rfl
  | cons c cs ih => exact (tokens_prefix_step lexer c).trans (ih (lexer.step c))

/-- The atom that a lexer is in, as the token that it would be if the text ended here. -/
def lastAtom (lexer : Lexer) : List Token :=
  match lexer.mode with
  | .atom start chars => [atomToken start chars]
  | _ => []

/-- How a lexer fails if the text ends here. -/
def openComment (lexer : Lexer) : Option ParseError :=
  match lexer.mode with
  | .blockComment start _ _ => some (.unterminatedComment start)
  | _ => none

/-- At the end of the text an atom that is being read becomes the last token. -/
theorem finish_eq (lexer : Lexer) :
    lexer.finish = ⟨lexer.tokens.toList ++ lexer.lastAtom, lexer.openComment⟩ := by
  obtain ⟨mode, position, tokens⟩ := lexer
  cases mode <;> simp [finish, lastAtom, openComment]

/-- The atom that is being read at the end has its place in the text. -/
theorem Sound.inSource_of_mem_lastAtom {lexer : Lexer} (h : lexer.Sound) :
    ∀ token ∈ lexer.lastAtom, token.InSource := by
  intro token mem
  unfold lastAtom at mem
  split at mem
  next start chars mode =>
    obtain ⟨hne, isAtom⟩ := h.atom start chars mode
    rw [List.mem_singleton.mp mem]
    exact .atom start (by simpa using hne) isAtom
  · cases mem

/-- Every token found has its place in the text. -/
theorem Sound.inSource_of_mem_finish {lexer : Lexer} (h : lexer.Sound) :
    ∀ token ∈ lexer.finish.pending, token.InSource := by
  intro token mem
  rw [finish_eq] at mem
  rcases List.mem_append.mp mem with mem | mem
  · exact h.tokens token (Array.mem_toList_iff.mp mem)
  · exact h.inSource_of_mem_lastAtom token mem

/-- The lexer at the end of a text. -/
def ofText (source : String) : Lexer := start.run source.toList

/-- A text is run through from where the one before it has led. -/
theorem ofText_append (a b : String) : ofText (a ++ b) = (ofText a).run b.toList := by
  rw [ofText, String.toList_append, run_append]
  rfl

/-- The invariant holds after every text. -/
theorem sound_ofText (source : String) : (ofText source).Sound := sound_start.run source.toList

/-! ## Reading one atom -/

/-- A delimiter ends an atom and is then read as in a gap. -/
theorem step_delimiter (position start : Nat) (chars : List Char) (tokens : Array Token) {c : Char}
    (hc : isDelimiter c = true) :
    step ⟨.atom start chars, position, tokens⟩ c =
      step ⟨.gap, position, tokens.push (atomToken start chars)⟩ c := by
  have hbar : c ≠ '|' := by
    rintro rfl
    exact absurd hc (by decide)
  simp only [step]
  rw [if_neg fun h => hbar h.2, if_pos hc]

/-- Characters that can be written as one atom are read as one. -/
theorem run_atom {chars : List Char} (hne : chars ≠ []) (isAtom : IsAtom chars) (position : Nat)
    (tokens : Array Token) :
    run ⟨.gap, position, tokens⟩ chars =
      ⟨.atom position chars.reverse, position + chars.length, tokens⟩ := by
  induction chars using List.reverseRec with
  | nil => exact absurd rfl hne
  | append_singleton chars c ih =>
      have hc : isDelimiter c = false := isAtom.1 c (by simp)
      rw [run_append]
      by_cases hchars : chars = []
      · subst hchars
        have ⟨⟨⟨blank, opening⟩, closing⟩, semicolon⟩ :
            ((isBlank c = false ∧ ¬c = '(') ∧ ¬c = ')') ∧ ¬c = ';' := by
          simpa [isDelimiter] using hc
        simp [step, stepGap, blank, opening, closing, semicolon]
      · rw [ih hchars isAtom.of_append]
        simp only [run_cons, run_nil, step]
        rw [if_neg ?_, if_neg (Bool.eq_false_iff.mp hc)]
        · simp [Nat.add_assoc]
        · rintro ⟨hhash, rfl⟩
          rw [List.reverse_eq_iff.mp hhash] at isAtom
          exact isAtom.2 List.prefix_rfl

/-- A text at whose beginning an atom ends: there is none, or it begins with a delimiter. -/
def Delimited (rest : List Char) : Prop := ∀ c ∈ rest.head?, isDelimiter c = true

/-- Characters that can be written as one atom are found as its token, where it ends. -/
theorem finish_run_atom {chars rest : List Char} (hne : chars ≠ []) (isAtom : IsAtom chars)
    (hrest : Delimited rest) (position : Nat) (tokens : Array Token) :
    (run ⟨.gap, position, tokens⟩ (chars ++ rest)).finish =
      (run ⟨.gap, position + chars.length,
        tokens.push (.symbol (String.ofList chars) position)⟩ rest).finish := by
  have htoken : atomToken position chars.reverse = .symbol (String.ofList chars) position := by
    rw [atomToken, List.reverse_reverse]
  rw [run_append, run_atom hne isAtom]
  cases rest with
  | nil => simp [finish, htoken]
  | cons c rest => rw [run_cons, step_delimiter _ _ _ _ (hrest c rfl), htoken, run_cons]

end Lexer

/-- A text that can be written as one atom is one token. -/
theorem lex_atom {text : String} (nonempty : text ≠ "") (isAtom : Lexer.IsAtom text.toList) :
    lex text = ⟨[.symbol text 0], none⟩ := by
  have chars : text.toList ≠ [] := mt String.toList_eq_nil_iff.mp nonempty
  have ends : Lexer.Delimited [] := nofun
  have found := Lexer.finish_run_atom chars isAtom ends 0 #[]
  rw [List.append_nil, String.ofList_toList] at found
  exact found

/-- Every token of a text is one that a source text can have. -/
theorem inSource_of_mem_lex (source : String) : ∀ token ∈ (lex source).pending, token.InSource :=
  (Lexer.sound_ofText source).inSource_of_mem_finish

end ScopedLisp
