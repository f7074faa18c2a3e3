import ScopedLisp.Proofs.Lexing.Partition
import ScopedLisp.Proofs.Reading.Balance

/-!
# ScopedLisp.Proofs.Reading.Matching

Which parenthesis an error names.  Two parentheses match if what stands between them is
balanced (`HasOpening`, `HasClosing`).

* What a reader has been fed is balanced but for the parentheses of its open lists, between which
  the tokens are balanced (`Nested`, `exists_nested`).
* So tokens can be fed exactly if every closing parenthesis has its opening one
  (`run_ok_iff_matched`), and a run that stops does so at the first that has none
  (`exists_firstStray`).
* At the end of the tokens, the innermost open list is the last opening parenthesis that has no
  closing one (`Reader.ending_eq_iff`).
* The errors of reading a text are these, and in front of the last the lexer's own
  (`cases_of_readAll_error`).
-/

namespace ScopedLisp

open Lexer

/-! ## Balanced tokens -/

theorem openings_of_opening {token : Token} (h : token.kind = .opening) :
    openings [token] = 1 ∧ closings [token] = 0 := by
  simp [openings, closings, h]

theorem closings_of_closing {token : Token} (h : token.kind = .closing) :
    openings [token] = 0 ∧ closings [token] = 1 := by
  simp [openings, closings, h]

theorem openings_of_symbol {token : Token} (h : token.kind = .symbol) :
    openings [token] = 0 ∧ closings [token] = 0 := by
  simp [openings, closings, h]

theorem balanced_nil : Balanced [] where
  prefixes before h := by rw [List.prefix_nil.mp h]; rfl
  whole := rfl

theorem balanced_symbol {token : Token} (h : token.kind = .symbol) : Balanced [token] where
  prefixes before hbefore := by
    obtain ⟨_, closed⟩ := openings_of_symbol h
    rcases List.prefix_cons_iff.mp hbefore with rfl | ⟨_, rfl, hnil⟩
    · exact Nat.le_refl 0
    · rw [List.prefix_nil.mp hnil, closed]
      exact Nat.zero_le _
  whole := by
    obtain ⟨opened, closed⟩ := openings_of_symbol h
    rw [opened, closed]

/-- Balanced tokens in a row are balanced. -/
theorem Balanced.append {a b : List Token} (ha : Balanced a) (hb : Balanced b) :
    Balanced (a ++ b) where
  prefixes before h := by
    rcases List.prefix_or_prefix_of_prefix h (List.prefix_append a b) with h' | ⟨more, rfl⟩
    · exact ha.prefixes before h'
    · have inB := hb.prefixes more ((List.prefix_append_right_inj a).mp h)
      have inA := ha.whole
      rw [openings_append, closings_append]
      omega
  whole := by rw [openings_append, closings_append, ha.whole, hb.whole]

/-- Balanced tokens between two parentheses are balanced. -/
theorem Balanced.enclose {opener closer : Token} {inside : List Token}
    (hopener : opener.kind = .opening) (h : Balanced inside) (hcloser : closer.kind = .closing) :
    Balanced (opener :: (inside ++ [closer])) := by
  obtain ⟨opens, _⟩ := openings_of_opening hopener
  obtain ⟨_, closes⟩ := closings_of_closing hcloser
  have whole := h.whole
  constructor
  · intro before hbefore
    rcases List.prefix_cons_iff.mp hbefore with rfl | ⟨front, rfl, hfront⟩
    · exact Nat.le_refl 0
    rcases List.prefix_concat_iff.mp hfront with rfl | hinside
    · rw [openings_cons, closings_cons, openings_append, closings_append]
      omega
    · have := h.prefixes front hinside
      rw [openings_cons, closings_cons]
      omega
  · rw [openings_cons, closings_cons, openings_append, closings_append]
    omega

/-! ## Matching parentheses -/

/-- Where the tokens `before` end, a closing parenthesis has its opening one: one of them, behind
which they are balanced. -/
def HasOpening (before : List Token) : Prop :=
  ∃ outside opener inside, before = outside ++ opener :: inside ∧ opener.kind = .opening ∧
    Balanced inside

/-- Where the tokens `after` begin, an opening parenthesis has its closing one: one of them, in
front of which they are balanced. -/
def HasClosing (after : List Token) : Prop :=
  ∃ inside closer outside, after = inside ++ closer :: outside ∧ closer.kind = .closing ∧
    Balanced inside

/-- Every closing parenthesis has its opening one. -/
def ClosingsMatch (tokens : List Token) : Prop :=
  ∀ before closer, before ++ [closer] <+: tokens → closer.kind = .closing → HasOpening before

/-- Every opening parenthesis has its closing one. -/
def OpeningsMatch (tokens : List Token) : Prop :=
  ∀ opener after, opener :: after <:+ tokens → opener.kind = .opening → HasClosing after

/-- The first closing parenthesis that has no opening one; `before` are the tokens before it. -/
structure FirstStray (tokens before : List Token) (stray : Token) : Prop where
  found : before ++ [stray] <+: tokens
  closing : stray.kind = .closing
  unmatched : ¬HasOpening before
  first : ClosingsMatch before

/-- The last opening parenthesis that has no closing one; `after` are the tokens behind it. -/
structure LastUnclosed (tokens : List Token) (opener : Token) (after : List Token) : Prop where
  found : opener :: after <:+ tokens
  opening : opener.kind = .opening
  unmatched : ¬HasClosing after
  last : OpeningsMatch after

/-- Balanced tokens have no opening parenthesis for a closing one behind them. -/
theorem Balanced.not_hasOpening {tokens : List Token} (h : Balanced tokens) :
    ¬HasOpening tokens := by
  rintro ⟨outside, opener, inside, rfl, hopener, balanced⟩
  have outer := h.prefixes outside (List.prefix_append ..)
  have whole := h.whole
  have inner := balanced.whole
  obtain ⟨opens, closes⟩ := openings_of_opening hopener
  rw [openings_append, closings_append, openings_cons opener, closings_cons opener] at whole
  omega

/-- Balanced tokens have no closing parenthesis for an opening one in front of them. -/
theorem Balanced.not_hasClosing {tokens : List Token} (h : Balanced tokens) :
    ¬HasClosing tokens := by
  rintro ⟨inside, closer, outside, rfl, hcloser, balanced⟩
  have upTo := h.prefixes (inside ++ [closer]) (by simp)
  have inner := balanced.whole
  obtain ⟨opens, closes⟩ := closings_of_closing hcloser
  rw [openings_append, closings_append] at upTo
  omega

/-- Where more is closed than opened, by more than `depth`, one parenthesis is the first to close
more than `depth` over what is opened in front of it. -/
theorem exists_excess {tokens : List Token} (depth : Nat)
    (h : openings tokens + depth < closings tokens) :
    ∃ inside closer outside, tokens = inside ++ closer :: outside ∧ closer.kind = .closing ∧
      (∀ before, before <+: inside → closings before ≤ openings before + depth) ∧
      closings inside = openings inside + depth := by
  induction tokens generalizing depth with
  | nil => exact absurd h (Nat.not_lt_zero _)
  | cons token tokens ih =>
      rw [openings_cons, closings_cons] at h
      by_cases last : depth = 0 ∧ token.kind = .closing
      · obtain ⟨rfl, hclosing⟩ := last
        refine ⟨[], token, tokens, rfl, hclosing, fun before hbefore => ?_, rfl⟩
        rw [List.prefix_nil.mp hbefore]
        exact Nat.zero_le _
      · -- behind this token, `depth'` may be closed
        obtain ⟨depth', hdepth⟩ :
            ∃ depth', depth' + closings [token] = depth + openings [token] := by
          refine ⟨depth + openings [token] - closings [token], ?_⟩
          cases hkind : token.kind <;> simp_all [openings, closings]
          omega
        obtain ⟨inside, closer, outside, rfl, hcloser, prefixes, whole⟩ :=
          ih depth' (by omega)
        refine ⟨token :: inside, closer, outside, rfl, hcloser, fun before hbefore => ?_, ?_⟩
        · rcases List.prefix_cons_iff.mp hbefore with rfl | ⟨front, rfl, hfront⟩
          · exact Nat.zero_le _
          · have := prefixes front hfront
            rw [openings_cons, closings_cons]
            omega
        · rw [openings_cons, closings_cons]
          omega

/-- Where more is closed than opened, an opening parenthesis in front has its closing one. -/
theorem hasClosing_of_lt {tokens : List Token} (h : openings tokens < closings tokens) :
    HasClosing tokens := by
  obtain ⟨inside, closer, outside, split, hcloser, prefixes, whole⟩ := exists_excess 0 h
  exact ⟨inside, closer, outside, split, hcloser, prefixes, whole⟩

/-- In balanced tokens every opening parenthesis has its closing one. -/
theorem Balanced.openingsMatch {tokens : List Token} (h : Balanced tokens) :
    OpeningsMatch tokens := by
  rintro opener after ⟨outside, rfl⟩ hopener
  have outer := h.prefixes outside (List.prefix_append ..)
  have whole := h.whole
  obtain ⟨opens, closes⟩ := openings_of_opening hopener
  rw [openings_append, closings_append, openings_cons opener, closings_cons opener] at whole
  exact hasClosing_of_lt (by omega)

/-! ## Open lists -/

/-- The tokens are balanced but for the opening parentheses `opened`, innermost first, which have no
closing ones: the tokens between these are balanced. -/
inductive Nested : List Token → (opened : List Token) → Prop
  | balanced {tokens : List Token} : Balanced tokens → Nested tokens []
  | opening {before inside opened : List Token} {opener : Token} : Nested before opened →
      opener.kind = .opening → Balanced inside →
      Nested (before ++ opener :: inside) (opener :: opened)

theorem Nested.append {tokens opened more : List Token} (h : Nested tokens opened)
    (hmore : Balanced more) : Nested (tokens ++ more) opened := by
  cases h with
  | balanced balanced => exact .balanced (balanced.append hmore)
  | opening outer hopener inner =>
      rw [List.append_assoc, List.cons_append]
      exact .opening outer hopener (inner.append hmore)

namespace Reader

/-- A complete expression moves no open list. -/
theorem positions_push (reader : Reader) (e : Expr) :
    (reader.push e).opened.map OpenList.position = reader.opened.map OpenList.position := by
  obtain ⟨done, opened⟩ := reader
  cases opened <;> rfl

/-- A token that is fed keeps the open lists where the unmatched parentheses are. -/
theorem nested_feed {reader next : Reader} {tokens opened : List Token} {token : Token}
    (h : Nested tokens opened)
    (places : reader.opened.map OpenList.position = opened.map Token.position)
    (fed : reader.feed token = .ok next) :
    ∃ opened', Nested (tokens ++ [token]) opened' ∧
      next.opened.map OpenList.position = opened'.map Token.position := by
  rw [feed] at fed
  split at fed
  case h_1 hkind =>
    cases fed
    exact ⟨token :: opened, .opening h hkind balanced_nil, by simp [places]⟩
  case h_2 hkind =>
    obtain ⟨done, lists⟩ := reader
    cases h with
    | balanced _ =>
        cases List.map_eq_nil_iff.mp places
        cases fed
    | @opening before inside opened opener outer hopener inner =>
        cases lists with
        | nil => cases places
        | cons list lists =>
            cases fed
            rw [List.map_cons, List.map_cons, List.cons.injEq] at places
            refine ⟨opened, ?_, ?_⟩
            · rw [List.append_assoc, List.cons_append]
              exact outer.append (inner.enclose hopener hkind)
            · rw [positions_push]
              exact places.2
  case h_3 hkind =>
    split at fed
    · cases fed
    · cases fed
      exact ⟨opened, h.append (balanced_symbol hkind), (positions_push ..).trans places⟩
  case h_4 => cases fed

/-- **Open lists are unmatched parentheses**: what has been fed is balanced but for these. -/
theorem exists_nested {tokens : List Token} {reader : Reader}
    (h : start.run tokens = (reader, none)) :
    ∃ opened, Nested tokens opened ∧
      reader.opened.map OpenList.position = opened.map Token.position := by
  induction tokens using List.reverseRecOn generalizing reader with
  | nil =>
      cases h
      exact ⟨[], .balanced balanced_nil, rfl⟩
  | append_singleton tokens token ih =>
      obtain ⟨mid, hrun, hlast⟩ := run_append_eq_ok h
      obtain ⟨opened, nested, places⟩ := ih hrun
      obtain ⟨next, hfeed, hnil⟩ := run_cons_eq_ok hlast
      cases hnil
      exact nested_feed nested places hfeed

/-! ## Runs -/

/-- Tokens that have been fed give each closing parenthesis its opening one. -/
theorem closingsMatch_of_run {tokens : List Token} {reader : Reader}
    (h : start.run tokens = (reader, none)) : ClosingsMatch tokens := by
  rintro before closer ⟨after, rfl⟩ hcloser
  rw [List.append_assoc] at h
  obtain ⟨mid, hrun, hrest⟩ := run_append_eq_ok h
  obtain ⟨next, hfeed, _⟩ := run_cons_eq_ok hrest
  obtain ⟨opened, nested, places⟩ := exists_nested hrun
  cases nested with
  | opening _ hopener inner => exact ⟨_, _, _, rfl, hopener, inner⟩
  | balanced _ =>
      -- no list is open, so the parenthesis could not have been fed
      obtain ⟨done, lists⟩ := mid
      cases List.map_eq_nil_iff.mp places
      rw [feed, hcloser] at hfeed
      cases hfeed

/-- A run that stops does so at the first closing parenthesis that has no opening one. -/
theorem exists_firstStray {tokens : List Token} (htokens : ∀ token ∈ tokens, token.InSource)
    {reader : Reader} {error : ParseError} (h : start.run tokens = (reader, some error)) :
    ∃ before place, FirstStray tokens before (.closing place) ∧
      error = .unexpectedClosing (some place) := by
  induction tokens using List.reverseRecOn with
  | nil => cases h
  | append_singleton tokens token ih =>
      have hprefix : ∀ token ∈ tokens, token.InSource :=
        fun other mem => htokens other (List.mem_append_left _ mem)
      cases hrun : start.run tokens with
      | mk mid failure =>
          cases failure with
          | some error' =>
              rw [run_append_error hrun] at h
              cases h
              obtain ⟨before, place, stray, rfl⟩ := ih hprefix hrun
              refine ⟨before, place, ⟨?_, stray.closing, stray.unmatched, stray.first⟩, rfl⟩
              exact stray.found.trans (List.prefix_append ..)
          | none =>
              rw [run_append hrun] at h
              cases hfeed : mid.feed token with
              | ok next =>
                  rw [run_cons_ok hfeed] at h
                  cases h
              | error error' =>
                  rw [run_cons_error hfeed] at h
                  cases h
                  obtain ⟨place, rfl, hopened, rfl⟩ :=
                    feed_error_of_inSource (htokens token (by simp)) hfeed
                  obtain ⟨opened, nested, places⟩ := exists_nested hrun
                  rw [hopened] at places
                  cases List.map_eq_nil_iff.mp places.symm
                  cases nested with
                  | balanced balanced =>
                      exact ⟨tokens, place, ⟨List.prefix_rfl, rfl, balanced.not_hasOpening,
                        closingsMatch_of_run hrun⟩, rfl⟩

/-- **Tokens can be read exactly if every closing parenthesis has its opening one.** -/
theorem run_ok_iff_matched {tokens : List Token} (htokens : ∀ token ∈ tokens, token.InSource) :
    (start.run tokens).2 = none ↔ ClosingsMatch tokens := by
  cases hrun : start.run tokens with
  | mk reader failure =>
      cases failure with
      | none => exact iff_of_true rfl (closingsMatch_of_run hrun)
      | some error =>
          obtain ⟨before, place, stray, _⟩ := exists_firstStray htokens hrun
          refine iff_of_false (by simp) fun closed => stray.unmatched ?_
          exact closed before _ stray.found stray.closing

end Reader

/-- The first closing parenthesis without an opening one is where reading stops, whatever tokens
follow. -/
theorem FirstStray.run {tokens before : List Token} {stray : Token}
    (h : FirstStray tokens before stray) (htokens : ∀ token ∈ tokens, token.InSource) :
    (Reader.start.run tokens).2 = some (.unexpectedClosing stray.position) := by
  obtain ⟨after, rfl⟩ := h.found
  have hbefore : ∀ token ∈ before, token.InSource := fun token mem => htokens token (by simp [mem])
  obtain ⟨mid, hrun⟩ : ∃ mid, Reader.start.run before = (mid, none) :=
    ⟨_, Prod.ext rfl ((Reader.run_ok_iff_matched hbefore).mpr h.first)⟩
  cases hfeed : mid.feed stray with
  | ok next =>
      have both : Reader.start.run (before ++ [stray]) = (next, none) := by
        rw [Reader.run_append hrun, Reader.run_cons_ok hfeed]
        rfl
      exact absurd (Reader.closingsMatch_of_run both before stray List.prefix_rfl h.closing)
        h.unmatched
  | error error =>
      obtain ⟨place, rfl, _, rfl⟩ :=
        Reader.feed_error_of_inSource (htokens stray (by simp)) hfeed
      rw [List.append_assoc, Reader.run_append hrun, List.singleton_append,
        Reader.run_cons_error hfeed]
      rfl

/-- The innermost open list was opened by the last opening parenthesis that has no closing one. -/
theorem lastUnclosed_of_nested {tokens opened : List Token} {opener : Token}
    (h : Nested tokens (opener :: opened)) : ∃ after, LastUnclosed tokens opener after := by
  cases h with
  | @opening before inside _ _ _ hopener inner =>
      exact ⟨inside, List.suffix_append .., hopener, inner.not_hasClosing, inner.openingsMatch⟩

/-- There is one last opening parenthesis that has no closing one. -/
theorem LastUnclosed.unique {tokens after after' : List Token} {opener opener' : Token}
    (h : LastUnclosed tokens opener after) (h' : LastUnclosed tokens opener' after') :
    opener = opener' := by
  rcases List.suffix_or_suffix_of_suffix h.found h'.found with inside | inside
  · rcases List.suffix_cons_iff.mp inside with same | later
    · exact (List.cons.inj same).1
    · exact absurd (h'.last opener after later h.opening) h.unmatched
  · rcases List.suffix_cons_iff.mp inside with same | later
    · exact (List.cons.inj same).1.symm
    · exact absurd (h.last opener' after' later h'.opening) h'.unmatched

/-- **How a reader ends at the last token**: at the last opening parenthesis that has no closing
one, if there is such a one. -/
theorem Reader.ending_eq_iff {tokens : List Token} {reader : Reader}
    (h : start.run tokens = (reader, none)) (error : ParseError) :
    reader.ending none = some error ↔
      ∃ opener after, LastUnclosed tokens opener after ∧
        error = .unmatchedOpening opener.position := by
  obtain ⟨opened, nested, places⟩ := exists_nested h
  obtain ⟨done, lists⟩ := reader
  cases opened with
  | nil =>
      cases List.map_eq_nil_iff.mp places
      cases nested with
      | balanced balanced =>
          refine iff_of_false (by simp [ending]) ?_
          rintro ⟨opener, after, unclosed, _⟩
          exact unclosed.unmatched
            (balanced.openingsMatch opener after unclosed.found unclosed.opening)
  | cons opener opened =>
      cases lists with
      | nil => cases places
      | cons list lists =>
          rw [List.map_cons, List.map_cons, List.cons.injEq] at places
          obtain ⟨after, unclosed⟩ := lastUnclosed_of_nested nested
          have last :
              ending ⟨done, list :: lists⟩ none = some (.unmatchedOpening opener.position) := by
            rw [← places.1]
            rfl
          rw [last, Option.some.injEq]
          constructor
          · rintro rfl
            exact ⟨opener, after, unclosed, rfl⟩
          · rintro ⟨opener', after', unclosed', rfl⟩
            rw [unclosed.unique unclosed']

/-! ## Errors -/

/-- An opening parenthesis of a source text has a place. -/
theorem Token.InSource.exists_opening {token : Token} (h : token.InSource)
    (hkind : token.kind = .opening) : ∃ place : Nat, token = .opening place := by
  cases h with
  | opening place => exact ⟨place, rfl⟩
  | closing | atom => cases hkind

/-- Where every closing parenthesis has its opening one, reading fails as the lexer does; if that
does not fail, then at the last opening parenthesis that has no closing one. -/
theorem readAll_error_iff_of_match {source : String} (h : ClosingsMatch (lex source).pending)
    (error : ParseError) :
    readAll source = .error error ↔
      (lex source).failure = some error ∨ (lex source).failure = none ∧
        ∃ opener after, LastUnclosed (lex source).pending opener after ∧
          error = .unmatchedOpening opener.position := by
  obtain ⟨reader, hrun⟩ : ∃ reader, Reader.start.run (lex source).pending = (reader, none) :=
    ⟨_, Prod.ext rfl ((Reader.run_ok_iff_matched (inSource_of_mem_lex source)).mpr h)⟩
  rw [readAll_eq_error_iff, Reader.stop, hrun, Option.none_or]
  cases hfailure : (lex source).failure with
  | some failure => simp [Reader.ending]
  | none => simp [Reader.ending_eq_iff hrun error]

/-- The first closing parenthesis without an opening one is the error of the text, whatever follows
it. -/
theorem FirstStray.readAll_eq {source : String} {before : List Token} {stray : Token}
    (h : FirstStray (lex source).pending before stray) :
    readAll source = .error (.unexpectedClosing stray.position) := by
  rw [readAll_eq_error_iff, Reader.stop, h.run (inSource_of_mem_lex source), Option.some_or]

/-- The text behind the first closing parenthesis without an opening one may be any other. -/
theorem FirstStray.exists_split {source : String} {before : List Token} {place : Int}
    (h : FirstStray (lex source).pending before (.closing place)) :
    ∃ front back, source = front ++ ")" ++ back ∧ place = front.length ∧
      ∀ other, FirstStray (lex (front ++ ")" ++ other)).pending before (.closing place) := by
  obtain ⟨after, found⟩ := h.found
  have partition := partition_lex source
  rw [← found, List.append_assoc, List.singleton_append] at partition
  obtain ⟨front, chars, more, split, lies, _, goOn⟩ := partition.cut
  rw [Nat.zero_add] at lies goOn
  obtain rfl : [')'] = chars := by simpa [Token.closing] using lies.toList_text
  have hplace : place = (front.length : Int) := by simpa [Token.closing] using lies.position
  refine ⟨String.ofList front, String.ofList more, ?_, by simp [hplace], fun other => ?_⟩
  · apply String.toList_injective
    simp [split]
  · obtain ⟨tokens, failure, rest⟩ := exists_partition (front.length + 1) other.toList
    have lies' : Token.LiesAt front.length (.closing place) [')'] other.toList := by
      rw [hplace]
      exact .closing _
    have partition' := goOn (')' :: other.toList) (.closing place :: tokens) failure
      (fun _ => by simp [Delimited, isDelimiter]) (.cons lies' rest)
    have lexed : lex (String.ofList front ++ ")" ++ other) =
        ⟨before ++ .closing place :: tokens, failure⟩ := by
      rw [lex_eq_iff]
      simpa using partition'
    rw [lexed]
    exact ⟨⟨tokens, by simp⟩, h.closing, h.unmatched, h.first⟩

/-- How reading a text can fail. -/
theorem cases_of_readAll_error {source : String} {error : ParseError}
    (failed : readAll source = .error error) :
    (∃ before place, FirstStray (lex source).pending before (.closing place) ∧
      error = .unexpectedClosing (some place)) ∨
    (ClosingsMatch (lex source).pending ∧ (lex source).failure = some error ∧
      ∃ front comment, source.toList = front ++ '#' :: '|' :: comment ∧
        afterClosers 1 comment = none ∧ Partition 0 front (lex source).pending none ∧
        error = .unterminatedComment front.length) ∨
    (ClosingsMatch (lex source).pending ∧ (lex source).failure = none ∧
      ∃ place after, LastUnclosed (lex source).pending (.opening place) after ∧
        error = .unmatchedOpening (some place)) := by
  by_cases matched : ClosingsMatch (lex source).pending
  · rcases (readAll_error_iff_of_match matched error).mp failed with
      failure | ⟨failure, opener, after, unclosed, rfl⟩
    · have partition := partition_lex source
      rw [failure] at partition
      obtain ⟨front, comment, split, endless, inFront, rfl⟩ := partition.unclosed
      rw [Nat.zero_add] at failure ⊢
      exact Or.inr (Or.inl ⟨matched, failure, front, comment, split, endless, inFront, rfl⟩)
    · have mem := unclosed.found.subset List.mem_cons_self
      obtain ⟨place, rfl⟩ :=
        (inSource_of_mem_lex source opener mem).exists_opening unclosed.opening
      exact Or.inr (Or.inr ⟨matched, failure, place, after, unclosed, rfl⟩)
  · cases hrun : Reader.start.run (lex source).pending with
    | mk reader stopped =>
        cases stopped with
        | none => exact absurd (Reader.closingsMatch_of_run hrun) matched
        | some stopped =>
            obtain ⟨before, place, stray, rfl⟩ :=
              Reader.exists_firstStray (inSource_of_mem_lex source) hrun
            rw [stray.readAll_eq] at failed
            cases failed
            exact Or.inl ⟨before, place, stray, rfl⟩

/-- **Parse errors point at the right token.**  Reading fails, in this order,

1. at the first closing parenthesis that has no opening one in front of it, whatever follows it;
2. at the block comment that the text does not close;
3. at the last opening parenthesis that has no closing one behind it.

More text could help in the last two cases only. -/
theorem readAll_error_points (source : String) :
    (∀ error, readAll source = .error error ↔
      (∃ before place, FirstStray (lex source).pending before (.closing place) ∧
        error = .unexpectedClosing (some place) ∧ error.position = some place ∧
        error.incomplete = false) ∨
      (ClosingsMatch (lex source).pending ∧ (lex source).failure = some error ∧
        ∃ front comment, source.toList = front ++ '#' :: '|' :: comment ∧
          afterClosers 1 comment = none ∧ Partition 0 front (lex source).pending none ∧
          error = .unterminatedComment front.length ∧
          error.position = some (front.length : Int) ∧ error.incomplete = true) ∨
      (ClosingsMatch (lex source).pending ∧ (lex source).failure = none ∧
        ∃ place after, LastUnclosed (lex source).pending (.opening place) after ∧
          error = .unmatchedOpening (some place) ∧ error.position = some place ∧
          error.incomplete = true)) ∧
    ∀ before place, FirstStray (lex source).pending before (.closing place) →
      ∃ front back, source = front ++ ")" ++ back ∧ place = front.length ∧
        ∀ other, readAll (front ++ ")" ++ other) = .error (.unexpectedClosing (some place)) := by
  refine ⟨fun error => ⟨fun failed => ?_, ?_⟩, fun before place stray => ?_⟩
  · rcases cases_of_readAll_error failed with ⟨before, place, stray, rfl⟩ |
      ⟨matched, failure, front, comment, split, endless, inFront, rfl⟩ |
      ⟨matched, failure, place, after, unclosed, rfl⟩
    · exact Or.inl ⟨before, place, stray, rfl, rfl, rfl⟩
    · exact Or.inr (Or.inl
        ⟨matched, failure, front, comment, split, endless, inFront, rfl, rfl, rfl⟩)
    · exact Or.inr (Or.inr ⟨matched, failure, place, after, unclosed, rfl, rfl, rfl⟩)
  · rintro (⟨before, place, stray, rfl, _⟩ | ⟨matched, failure, _⟩ |
      ⟨matched, failure, place, after, unclosed, rfl, _⟩)
    · exact stray.readAll_eq
    · exact (readAll_error_iff_of_match matched error).mpr (Or.inl failure)
    · exact (readAll_error_iff_of_match matched _).mpr (Or.inr ⟨failure, _, after, unclosed, rfl⟩)
  · obtain ⟨front, back, split, length, others⟩ := stray.exists_split
    exact ⟨front, back, split, length, fun other => (others other).readAll_eq⟩

/-- A parenthesis too many in front of an open comment, an open comment in an open list, and lists
of which one inside is closed. -/
theorem readAll_error_points_nested :
    (∃ front back, "(a)) #| (" = front ++ ")" ++ back ∧ (3 : Int) = front.length ∧
      ∀ other, readAll (front ++ ")" ++ other) = .error (.unexpectedClosing (some 3))) ∧
    readAll "((a) #| b" = .error (.unterminatedComment 5) ∧
    readAll "(a (b (c)" = .error (.unmatchedOpening (some 3)) := by
  have inParentheses (place : Nat) (text : String) :
      Balanced [.opening place, .symbol text (place + 1 : Nat), .closing (place + 2 : Nat)] :=
    Balanced.enclose rfl (balanced_symbol rfl) rfl
  refine ⟨?_, ?_, ?_⟩
  · have lexed : (lex "(a)) #| (").pending =
        [.opening 0, .symbol "a" 1, .closing 2, .closing 3] := by decide
    refine (readAll_error_points "(a)) #| (").2 [.opening 0, .symbol "a" 1, .closing 2] 3 ?_
    rw [lexed]
    exact ⟨List.prefix_rfl, rfl, (inParentheses 0 "a").not_hasOpening,
      Reader.closingsMatch_of_run rfl⟩
  · have lexed : lex "((a) #| b" = ⟨[.opening 0, .opening 1, .symbol "a" 2, .closing 3],
        some (.unterminatedComment 5)⟩ := by decide
    have inFront : lex "((a) " = ⟨[.opening 0, .opening 1, .symbol "a" 2, .closing 3], none⟩ := by
      decide
    refine ((readAll_error_points "((a) #| b").1 _).mpr (Or.inr (Or.inl ?_))
    rw [lexed]
    exact ⟨Reader.closingsMatch_of_run rfl, rfl, "((a) ".toList, " b".toList, by decide, by decide,
      (lex_eq_iff ..).mp inFront, rfl, rfl, rfl⟩
  · have lexed : lex "(a (b (c)" = ⟨[.opening 0, .symbol "a" 1, .opening 3, .symbol "b" 4,
        .opening 6, .symbol "c" 7, .closing 8], none⟩ := by decide
    have balanced : Balanced [.symbol "b" 4, .opening 6, .symbol "c" 7, .closing 8] :=
      Balanced.append (a := [.symbol "b" 4]) (balanced_symbol rfl) (inParentheses 6 "c")
    refine ((readAll_error_points "(a (b (c)").1 _).mpr (Or.inr (Or.inr ?_))
    rw [lexed]
    exact ⟨Reader.closingsMatch_of_run rfl, rfl, 3, _, ⟨⟨[.opening 0, .symbol "a" 1], rfl⟩, rfl,
      balanced.not_hasClosing, balanced.openingsMatch⟩, rfl, rfl, rfl⟩

end ScopedLisp
