import ScopedLisp.Proofs.Reading

/-!
# ScopedLisp.Proofs.Reading.Balance

Which texts are read.  A run keeps account of its open lists: there are as many of them
as opening parentheses without their closing one (`opened_run`).  So it fails exactly at
a parenthesis that closes nothing (`run_ok_iff`), and tokens are read exactly if their
parentheses are balanced (`exists_readAll_iff`).
-/

namespace ScopedLisp

/-! ## Counting parentheses -/

/-- How many of the tokens are opening parentheses. -/
def openings (tokens : List Token) : Nat := tokens.countP (·.kind = .opening)

/-- How many of the tokens are closing parentheses. -/
def closings (tokens : List Token) : Nat := tokens.countP (·.kind = .closing)

theorem openings_append (a b : List Token) : openings (a ++ b) = openings a + openings b :=
  List.countP_append

theorem closings_append (a b : List Token) : closings (a ++ b) = closings a + closings b :=
  List.countP_append

theorem openings_cons (token : Token) (tokens : List Token) :
    openings (token :: tokens) = openings [token] + openings tokens :=
  openings_append [token] tokens

theorem closings_cons (token : Token) (tokens : List Token) :
    closings (token :: tokens) = closings [token] + closings tokens :=
  closings_append [token] tokens

/-- Tokens whose parentheses are balanced: up to no token have more been closed than opened, and all
together as many have been. -/
structure Balanced (tokens : List Token) : Prop where
  prefixes : ∀ before, before <+: tokens → closings before ≤ openings before
  whole : closings tokens = openings tokens

/-! ## Open lists -/

namespace Reader

theorem opened_feed {reader next : Reader} {token : Token} (h : reader.feed token = .ok next) :
    next.opened.length + closings [token] = reader.opened.length + openings [token] := by
  obtain ⟨kind, text, position⟩ := token
  cases kind with
  | opening =>
      cases h
      simp [openings, closings]
  | closing =>
      obtain ⟨done, opened⟩ := reader
      cases opened with
      | nil => cases h
      | cons inner others =>
          cases h
          simp [openings, closings, length_opened_push]
  | symbol =>
      simp only [feed] at h
      by_cases empty : text = ""
      · rw [if_pos empty] at h
        cases h
      · rw [if_neg empty] at h
        cases h
        simp [openings, closings, length_opened_push]
  | other name => cases h

/-- The open lists are the opening parentheses read, less the closing ones. -/
theorem opened_run {reader next : Reader} {tokens : List Token}
    (h : reader.run tokens = (next, none)) :
    next.opened.length + closings tokens = reader.opened.length + openings tokens := by
  induction tokens generalizing reader with
  | nil =>
      cases h
      rfl
  | cons token tokens ih =>
      obtain ⟨mid, hf, hrun⟩ := run_cons_eq_ok h
      have hfeed := opened_feed hf
      have hrest := ih hrun
      rw [openings_cons, closings_cons]
      omega

/-- A token of a source text can be fed unless it closes a list where none is open. -/
theorem feed_ok_of_inSource {token : Token} (htoken : token.InSource) {reader : Reader}
    (h : closings [token] ≤ reader.opened.length + openings [token]) :
    ∃ next, reader.feed token = .ok next := by
  cases hf : reader.feed token with
  | ok next => exact ⟨next, rfl⟩
  | error error =>
      obtain ⟨place, rfl, hopened, _⟩ := feed_error_of_inSource htoken hf
      rw [hopened] at h
      simp [openings, closings, Token.closing] at h

/-- Tokens of a source text can be read unless, up to one of them, more lists are closed than were
open and have been opened. -/
theorem run_ok_iff {tokens : List Token} (htokens : ∀ token ∈ tokens, token.InSource)
    (reader : Reader) :
    (reader.run tokens).2 = none ↔
      ∀ before, before <+: tokens → closings before ≤ reader.opened.length + openings before := by
  constructor
  · rintro hok before ⟨after, rfl⟩
    obtain ⟨next, hrun, _⟩ := run_append_eq_ok (Prod.ext rfl hok)
    have hopened := opened_run hrun
    omega
  · intro hbefore
    induction tokens generalizing reader with
    | nil => rfl
    | cons token tokens ih =>
        have hfirst := hbefore [token] (List.prefix_append [token] tokens)
        obtain ⟨next, hnext⟩ := feed_ok_of_inSource (htokens token List.mem_cons_self) hfirst
        have hfeed := opened_feed hnext
        rw [run_cons_ok hnext]
        refine ih (fun other mem => htokens other (List.mem_cons_of_mem token mem)) next ?_
        intro before hprefix
        have hcons := hbefore (token :: before) (List.cons_prefix_cons.mpr ⟨rfl, hprefix⟩)
        rw [openings_cons, closings_cons] at hcons
        omega

end Reader

/-! ## Balanced texts -/

/-- A text can be read exactly if its tokens do not fail and their parentheses are balanced. -/
theorem exists_readAll_iff (source : String) :
    (∃ es, readAll source = .ok es) ↔
      (lex source).failure = none ∧ Balanced (lex source).pending := by
  have hrun := Reader.run_ok_iff (inSource_of_mem_lex source) Reader.start
  have hdepth : Reader.start.opened.length = 0 := rfl
  rw [hdepth] at hrun
  simp only [Nat.zero_add] at hrun
  constructor
  · rintro ⟨es, hread⟩
    obtain ⟨hfailure, hend⟩ := (readAll_eq_ok_iff source es).mp hread
    have hopened := Reader.opened_run hend
    refine ⟨hfailure, hrun.mp (by rw [hend]), ?_⟩
    rw [hdepth] at hopened
    simpa using hopened
  · rintro ⟨hfailure, balanced⟩
    have hok := hrun.mpr balanced.prefixes
    cases hend : Reader.start.run (lex source).pending with
    | mk last error =>
        rw [hend] at hok
        cases hok
        have hopened := Reader.opened_run hend
        rw [balanced.whole, hdepth] at hopened
        have hnil : last.opened = [] := List.length_eq_zero_iff.mp (by omega)
        refine ⟨last.done.reverse, (readAll_eq_ok_iff source _).mpr ⟨hfailure, ?_⟩⟩
        rw [hend, List.reverse_reverse, ← hnil]

/-- The expressions read from a text, written out, are the texts of its tokens. -/
theorem flatMap_flatten_of_readAll {source : String} {es : List Expr}
    (h : readAll source = .ok es) :
    es.flatMap Expr.flatten = (lex source).pending.map Token.text := by
  rw [Expr.flatMap_flatten, ← ((readAll_eq_ok_iff_texts source es).mp h).2, List.map_map]
  simp [Function.comp_def, Lexeme.text_ofText]

/-- No other expressions have the lexemes of the tokens of a text than those read from it. -/
theorem lexemesOf_eq_iff_of_readAll {source : String} {es : List Expr}
    (h : readAll source = .ok es) (fs : List Expr) :
    (lex source).pending.map Token.lexeme? = (Expr.lexemesOf fs).map some ↔ fs = es := by
  obtain ⟨hfailure, hes⟩ := (readAll_eq_ok_iff_spelling source es).mp h
  constructor
  · intro hfs
    have hread := (readAll_eq_ok_iff_spelling source fs).mpr ⟨hfailure, hfs⟩
    rw [h] at hread
    cases hread
    rfl
  · rintro rfl
    exact hes

/-- Expressions that are written out as those read from a text are those, unless an atom of theirs
looks like a parenthesis. -/
theorem eq_of_flatMap_flatten {source : String} {es fs : List Expr}
    (h : readAll source = .ok es)
    (atoms : ∀ text ∈ Expr.atomsOf fs, text ≠ "(" ∧ text ≠ ")")
    (htexts : fs.flatMap Expr.flatten = (lex source).pending.map Token.text) : fs = es := by
  have hfs : (((lex source).pending.map Token.text).map Lexeme.ofText) = Expr.lexemesOf fs := by
    rw [← htexts, Expr.flatMap_flatten, List.map_map]
    refine (List.map_congr_left fun lexeme mem => ?_).trans (List.map_id _)
    refine Lexeme.ofText_text fun text heq => atoms text ?_
    rw [Expr.mem_atomsOf_iff, ← heq]
    exact mem
  obtain ⟨hfailure, _⟩ := (readAll_eq_ok_iff_texts source es).mp h
  have hread := (readAll_eq_ok_iff_texts source fs).mpr ⟨hfailure, hfs⟩
  rw [h] at hread
  cases hread
  rfl

/-- **Reading accepts exactly the balanced texts and loses nothing.**  What it answers, written out,
is what the lexer found; no other expressions have the same lexemes, and none without an atom that
looks like a parenthesis is written out so.  Reading one expression accepts the texts that have just
that expression. -/
theorem reading_balanced (source : String) :
    ((lex source).failure = none →
      ((∃ es, readAll source = .ok es) ↔ Balanced (lex source).pending)) ∧
    (∀ es, readAll source = .ok es →
      es.flatMap Expr.flatten = (lex source).pending.map Token.text ∧
      (∀ fs, (lex source).pending.map Token.lexeme? = (Expr.lexemesOf fs).map some ↔ fs = es) ∧
      ∀ fs, (∀ text ∈ Expr.atomsOf fs, text ≠ "(" ∧ text ≠ ")") →
        fs.flatMap Expr.flatten = (lex source).pending.map Token.text → fs = es) ∧
    ∀ e, read source = .ok e ↔ readAll source = .ok [e] := by
  refine ⟨fun hfailure => ?_, fun es hread => ⟨?_, ?_, fun fs atoms htexts => ?_⟩, ?_⟩
  · rw [exists_readAll_iff]
    exact and_iff_right hfailure
  · exact flatMap_flatten_of_readAll hread
  · exact lexemesOf_eq_iff_of_readAll hread
  · exact eq_of_flatMap_flatten hread atoms htexts
  · exact read_eq_ok_iff source

/-- A list with a comment in it, and a stray parenthesis. -/
theorem reading_balanced_nested :
    Balanced (lex "(a (b ()) ; c)\n)").pending ∧
      read "(a (b ()) ; c)\n)" = .ok (.list [.atom "a", .list [.atom "b", .list []]]) ∧
      ¬Balanced (lex "(a))").pending := by
  have hread : readAll "(a (b ()) ; c)\n)" =
      .ok [.list [.atom "a", .list [.atom "b", .list []]]] := by cbv
  have hstray : readAll "(a))" = .error (.unexpectedClosing (some 3)) := by cbv
  obtain ⟨hiff, _, hone⟩ := reading_balanced "(a (b ()) ; c)\n)"
  refine ⟨(hiff (by decide)).mp ⟨_, hread⟩, (hone _).mpr hread, fun balanced => ?_⟩
  obtain ⟨es, hes⟩ := ((reading_balanced "(a))").1 (by decide)).mpr balanced
  rw [hstray] at hes
  cases hes

end ScopedLisp
