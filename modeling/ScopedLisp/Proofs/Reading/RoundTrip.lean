import ScopedLisp.Proofs.Reading

/-!
# ScopedLisp.Proofs.Reading.RoundTrip

Reading what was written.  Text *spells* lexemes if a lexer that reads it from a gap finds
tokens with these lexemes, and is then as if it were in a gap (`Lexer.Spells`).  What is
written for an expression spells its lexemes, provided that each of its atoms can be
written (`spells_writeBefore`); hence it is read as that expression again
(`read_toSource`), and no text is read as an expression whose atoms cannot be written
(`writable_of_readAll`).
-/

namespace ScopedLisp

/-- Can an expression be written so that it is read again?  Each of its atoms can be. -/
def Expr.Writable (e : Expr) : Prop := ∀ text ∈ e.atoms, text ≠ "" ∧ Lexer.IsAtom text.toList

instance (e : Expr) : Decidable e.Writable := inferInstanceAs (Decidable (∀ text ∈ e.atoms, _))

theorem Expr.writable_atom {text : String} (word : text ≠ "" ∧ Lexer.IsAtom text.toList) :
    (Expr.atom text).Writable := by
  intro other mem
  rwa [List.mem_singleton.mp mem]

theorem Expr.writable_list {items : List Expr} : (Expr.list items).Writable ↔ ∀ e ∈ items, e.Writable := by
  simp only [Writable, atoms, atomsOf_eq_flatMap, List.mem_flatMap]
  constructor
  · intro written e mem text inside
    exact written text ⟨e, mem, inside⟩
  · rintro written text ⟨e, mem, inside⟩
    exact written e mem text inside

namespace Lexer

/-! ## Spelling lexemes -/

/-- From a gap, the characters `cs` spell `xs` in front of `rest`: with them tokens of these lexemes
are found, and the lexer ends as it would end on `rest` alone. -/
def Spells (xs : List Lexeme) (cs rest : List Char) : Prop :=
  ∀ position tokens, ∃ position' tokens',
    (run ⟨.gap, position, tokens⟩ cs).finish = (run ⟨.gap, position', tokens'⟩ rest).finish ∧
      tokens'.toList.map Token.lexeme? = tokens.toList.map Token.lexeme? ++ xs.map some

theorem Spells.refl (rest : List Char) : Spells [] rest rest := by
  intro position tokens
  exact ⟨position, tokens, rfl, by simp⟩

theorem Spells.trans {xs ys : List Lexeme} {cs middle rest : List Char}
    (hxs : Spells xs cs middle) (hys : Spells ys middle rest) : Spells (xs ++ ys) cs rest := by
  intro position tokens
  obtain ⟨position₁, tokens₁, hfinish₁, hlexemes₁⟩ := hxs position tokens
  obtain ⟨position₂, tokens₂, hfinish₂, hlexemes₂⟩ := hys position₁ tokens₁
  refine ⟨position₂, tokens₂, hfinish₁.trans hfinish₂, ?_⟩
  rw [hlexemes₂, hlexemes₁, List.map_append, List.append_assoc]

theorem spells_blank (rest : List Char) : Spells [] (' ' :: rest) rest := by
  intro position tokens
  exact ⟨position + 1, tokens, rfl, by simp⟩

theorem spells_opening (rest : List Char) : Spells [.opening] ('(' :: rest) rest := by
  intro position tokens
  exact ⟨position + 1, tokens.push (.opening position), rfl, by simp [Token.lexeme?, Token.opening]⟩

theorem spells_closing (rest : List Char) : Spells [.closing] (')' :: rest) rest := by
  intro position tokens
  exact ⟨position + 1, tokens.push (.closing position), rfl, by simp [Token.lexeme?, Token.closing]⟩

/-- An atom that can be written spells itself, where it ends. -/
theorem spells_atom {text : String} (nonempty : text ≠ "") (isAtom : IsAtom text.toList)
    {rest : List Char} (hrest : Delimited rest) :
    Spells [.atom text] (text.toList ++ rest) rest := by
  intro position tokens
  have hne : text.toList ≠ [] := mt String.toList_eq_nil_iff.mp nonempty
  refine ⟨_, _, finish_run_atom hne isAtom hrest position tokens, ?_⟩
  simp [Token.lexeme?, Token.symbol, nonempty]

/-! ## What is written -/

mutual
/-- An expression that is written spells its lexemes. -/
theorem spells_writeBefore : (e : Expr) → e.Writable → (rest : List Char) → Delimited rest →
    Spells e.lexemes (e.writeBefore rest) rest
  | .atom text, writable, rest, hrest => by
      obtain ⟨nonempty, isAtom⟩ := writable text (List.mem_singleton_self text)
      exact spells_atom nonempty isAtom hrest
  | .list items, writable, rest, _ => by
      have hclosing : Delimited (')' :: rest) := by simp [Delimited, isDelimiter]
      have hitems := spells_writeItemsBefore items writable (')' :: rest) hclosing
      exact (spells_opening _).trans (hitems.trans (spells_closing rest))

/-- Expressions that are written in a row spell their lexemes. -/
theorem spells_writeItemsBefore : (es : List Expr) →
    (∀ text ∈ Expr.atomsOf es, text ≠ "" ∧ IsAtom text.toList) → (rest : List Char) →
    Delimited rest → Spells (Expr.lexemesOf es) (Expr.writeItemsBefore es rest) rest
  | [], _, rest, _ => Spells.refl rest
  | [e], writable, rest, hrest => by
      rw [Expr.lexemesOf, Expr.lexemesOf, List.append_nil, Expr.writeItemsBefore]
      refine spells_writeBefore e (fun text mem => writable text ?_) rest hrest
      exact List.mem_append_left _ mem
  | e :: e' :: es, writable, rest, hrest => by
      have hwrite : Expr.writeItemsBefore (e :: e' :: es) rest =
          e.writeBefore (' ' :: Expr.writeItemsBefore (e' :: es) rest) := rfl
      rw [Expr.lexemesOf, hwrite]
      have hblank : Delimited (' ' :: Expr.writeItemsBefore (e' :: es) rest) := by
        intro c hc
        cases hc
        decide
      have hfirst := spells_writeBefore e
        (fun text mem => writable text (List.mem_append_left _ mem)) _ hblank
      have hothers := spells_writeItemsBefore (e' :: es)
        (fun text mem => writable text (List.mem_append_right _ mem)) rest hrest
      exact hfirst.trans ((spells_blank _).trans hothers)
end

end Lexer

/-- **Writing, then reading**: an expression whose atoms can be written is read again. -/
theorem read_toSource {e : Expr} (writable : e.Writable) : read e.toSource = .ok e := by
  have hnil : Lexer.Delimited [] := by simp [Lexer.Delimited]
  obtain ⟨position, tokens, hfinish, hlexemes⟩ :=
    Lexer.spells_writeBefore e writable [] hnil 0 #[]
  have hlex : lex e.toSource = ⟨tokens.toList, none⟩ := by
    rw [lex, Expr.toSource, String.toList_ofList, Lexer.start, hfinish]
    rfl
  rw [read_eq_ok_iff, readAll_eq_ok_iff_spelling, hlex, Expr.lexemesOf, Expr.lexemesOf,
    List.append_nil]
  exact ⟨rfl, hlexemes⟩

/-! ## What is read -/

/-- An atom that is read from a token of a source text can be written. -/
theorem Token.InSource.writable {token : Token} (h : token.InSource) {text : String}
    (hatom : token.lexeme? = some (.atom text)) : text ≠ "" ∧ Lexer.IsAtom text.toList := by
  cases h with
  | opening position => cases hatom
  | closing position => cases hatom
  | @atom chars position nonempty isAtom =>
      have hempty := (atom_ne nonempty isAtom).1
      have htext : String.ofList chars = text := by
        simpa [lexeme?, symbol, hempty] using hatom
      rw [← htext, String.toList_ofList]
      exact ⟨hempty, isAtom⟩

/-- The expressions that are read from a text can be written. -/
theorem writable_of_readAll {source : String} {es : List Expr} (h : readAll source = .ok es) :
    ∀ e ∈ es, e.Writable := by
  intro e he text htext
  obtain ⟨_, hspelling⟩ := (readAll_eq_ok_iff_spelling source es).mp h
  have hmem : Lexeme.atom text ∈ Expr.lexemesOf es := by
    rw [← Expr.mem_atomsOf_iff, Expr.atomsOf_eq_flatMap]
    exact List.mem_flatMap_of_mem he htext
  have hsome : some (Lexeme.atom text) ∈ (lex source).pending.map Token.lexeme? := by
    rw [hspelling]
    exact List.mem_map_of_mem hmem
  obtain ⟨token, htoken, hlexeme⟩ := List.mem_map.mp hsome
  exact (inSource_of_mem_lex source token htoken).writable hlexeme

/-- **The round trip, exactly on its domain**: what is written for an expression is read as that
expression if and only if each of its atoms is there and holds no white space, no parenthesis and no
semicolon and does not begin a block comment.  Whatever is read is such an expression. -/
theorem read_toSource_iff :
    (∀ e : Expr, read e.toSource = .ok e ↔ e.Writable) ∧
    (∀ source e, read source = .ok e → e.Writable ∧ read e.toSource = .ok e) ∧
    ∀ source es, readAll source = .ok es →
      ∀ e ∈ es, e.Writable ∧ read e.toSource = .ok e := by
  have hread (source : String) (e : Expr) (h : read source = .ok e) : e.Writable :=
    writable_of_readAll ((read_eq_ok_iff source e).mp h) e (List.mem_singleton_self e)
  refine ⟨fun e => ⟨hread e.toSource e, read_toSource⟩, ?_, ?_⟩
  · intro source e h
    have writable := hread source e h
    exact ⟨writable, read_toSource writable⟩
  · intro source es h e he
    have writable := writable_of_readAll h e he
    exact ⟨writable, read_toSource writable⟩

/-- Atoms may hold `#` and `|`, but may not begin with both in a row. -/
theorem read_toSource_iff_hash :
    read (Expr.list [.atom "#", .list [], .atom "a#|b", .atom "|#"]).toSource =
        .ok (.list [.atom "#", .list [], .atom "a#|b", .atom "|#"]) ∧
      read (Expr.list [.atom "#", .atom "#|"]).toSource ≠ .ok (.list [.atom "#", .atom "#|"]) ∧
      read "(# #|a|# b)" = .ok (.list [.atom "#", .atom "b"]) ∧
      Expr.Writable (.list [.atom "#", .atom "b"]) := by
  have hread : read "(# #|a|# b)" = .ok (.list [.atom "#", .atom "b"]) := by cbv
  have hhash : ¬Expr.Writable (.list [.atom "#", .atom "#|"]) := by decide
  exact ⟨(read_toSource_iff.1 _).mpr (by decide), mt (read_toSource_iff.1 _).mp hhash, hread,
    (read_toSource_iff.2.1 _ _ hread).1⟩

end ScopedLisp
