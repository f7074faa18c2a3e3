import ScopedLisp.Proofs.Reading
import ScopedLisp.Session

/-!
# ScopedLisp.Proofs.Reading.Queue

A stream of tokens is a queue, however it is used.  `TokenStream` keeps the tokens that are still to
come.  A stream whose tokens arrive one at a time keeps less: a `Lookahead` has a buffer of tokens that
were looked at, takes all others from their source when it needs them, and reads an expression in a loop
that takes token after token and keeps its open lists on a stack.

Both serve every row of steps alike (`Lookahead.serveAll_queue`); the loop finds a list on its stack
whenever it needs one, because the first token was looked at before (`Lookahead.readLoop_queue`).  What has
been taken out and what is still to come are always the tokens that there were at the start
(`Lookahead.all_serveAll`).
-/

namespace ScopedLisp

/-! ## Steps -/

/-- What may be asked of a stream of tokens. -/
inductive StreamStep where
  | peek
  | advance
  | readExpr
  deriving DecidableEq

/-- What a stream of tokens answers. -/
inductive StreamAnswer where
  | token (found : Option Token)
  | expr (found : Option Expr)
  | error (error : ParseError)
  /-- The innermost of no open lists was asked for. -/
  | outOfRange
  deriving DecidableEq

namespace StreamAnswer

/-- The answer to a step that looks for a token. -/
def ofToken : Except ParseError (Option Token) → StreamAnswer
  | .ok found => token found
  | .error failure => error failure

/-- The answer to a step that looks for an expression. -/
def ofExpr : Except ParseError (Option Expr) → StreamAnswer
  | .ok found => expr found
  | .error failure => error failure

end StreamAnswer

/-- The answers to the steps of a row that are more than a look ahead. -/
def otherAnswers (steps : List StreamStep) (answers : List StreamAnswer) : List StreamAnswer :=
  ((steps.zip answers).filter (·.1 ≠ .peek)).map (·.2)

namespace TokenStream

/-- One step: its answer, and the stream that is left. -/
def serve (stream : TokenStream) : StreamStep → StreamAnswer × TokenStream
  | .peek => stream.peek.map .ofToken id
  | .advance => stream.advance.map .ofToken id
  | .readExpr => stream.readExpr.map .ofExpr id

/-- A row of steps: their answers, and the stream that is left. -/
def serveAll (stream : TokenStream) : List StreamStep → List StreamAnswer × TokenStream
  | [] => ([], stream)
  | step :: steps =>
    let (answer, next) := stream.serve step
    let (answers, last) := next.serveAll steps
    (answer :: answers, last)

end TokenStream

/-! ## A stream whose tokens arrive one at a time -/

/-- A stream of tokens that arrive one at a time: those that have been taken out of it, those that were
looked at and have not been taken, and those that have not arrived. -/
structure Lookahead where
  taken : List Token
  buffer : List Token
  source : List Token

namespace Lookahead

/-- No token has arrived. -/
def start (tokens : List Token) : Lookahead := ⟨[], [], tokens⟩

/-- The next token, which stays in the buffer. -/
def peek (stream : Lookahead) : Option Token × Lookahead :=
  match stream.buffer, stream.source with
  | token :: _, _ => (some token, stream)
  | [], token :: rest => (some token, ⟨stream.taken, [token], rest⟩)
  | [], [] => (none, stream)

/-- The next token, taken from the buffer or, where that is empty, from the source. -/
def advance (stream : Lookahead) : Option Token × Lookahead :=
  match stream.buffer, stream.source with
  | token :: others, _ => (some token, ⟨stream.taken ++ [token], others, stream.source⟩)
  | [], token :: rest => (some token, ⟨stream.taken ++ [token], [], rest⟩)
  | [], [] => (none, stream)

/-- A complete expression is the answer, or an item of the innermost open list. -/
def place (e : Expr) : List OpenList → StreamAnswer ⊕ List OpenList
  | [] => .inl (.expr (some e))
  | inner :: others => .inr (⟨inner.position, e :: inner.items⟩ :: others)

/-- What a token comes to where these lists are open: an answer, or the lists that are open then. -/
def accept (token : Token) (opened : List OpenList) : StreamAnswer ⊕ List OpenList :=
  match token.kind with
  | .opening => .inr (⟨token.position, []⟩ :: opened)
  | .closing =>
    match opened with
    | [] => .inl .outOfRange
    | inner :: others => place (.list inner.items.reverse) others
  | .symbol =>
    if token.text = "" then .inl (.error .emptyAtom) else place (.atom token.text) opened
  | .other name => .inl (.error (.unknownToken name token.text token.position))

/-- The tokens that are still to come. -/
def pending (stream : Lookahead) : List Token := stream.buffer ++ stream.source

/-- A token is taken from the front of those to come. -/
theorem pending_of_advance {stream next : Lookahead} {token : Token}
    (h : stream.advance = (some token, next)) : stream.pending = token :: next.pending := by
  obtain ⟨taken, buffer, source⟩ := stream
  rcases buffer with _ | ⟨_, _⟩ <;> rcases source with _ | ⟨_, _⟩ <;> cases h <;> rfl

/-- No token is taken where none is to come. -/
theorem pending_of_advance_none {stream next : Lookahead} (h : stream.advance = (none, next)) :
    stream.pending = [] ∧ next = stream := by
  obtain ⟨taken, buffer, source⟩ := stream
  rcases buffer with _ | ⟨_, _⟩ <;> rcases source with _ | ⟨_, _⟩ <;> cases h
  exact ⟨rfl, rfl⟩

theorem length_pending_advance {stream next : Lookahead} {token : Token}
    (h : stream.advance = (some token, next)) : next.pending.length < stream.pending.length := by
  rw [pending_of_advance h]
  exact Nat.lt_succ_self _

/-- The token that is looked at is the first of those to come, and stays one of them. -/
theorem pending_of_peek {stream next : Lookahead} {found : Option Token}
    (h : stream.peek = (found, next)) :
    found = stream.pending.head? ∧ next.pending = stream.pending := by
  obtain ⟨taken, buffer, source⟩ := stream
  rcases buffer with _ | ⟨_, _⟩ <;> rcases source with _ | ⟨_, _⟩ <;> cases h <;> exact ⟨rfl, rfl⟩

/-- Take token after token until there is an answer. -/
def readLoop (opened : List OpenList) (stream : Lookahead) : StreamAnswer × Lookahead :=
  match _h : stream.advance with
  | (none, next) =>
    match opened with
    | [] => (.outOfRange, next)
    | inner :: _ => (.error (.unmatchedOpening inner.position), next)
  | (some token, next) =>
    match accept token opened with
    | .inl answer => (answer, next)
    | .inr opened => readLoop opened next
termination_by stream.pending.length
decreasing_by exact length_pending_advance _h

/-- The next expression.  A closing parenthesis in front is looked at and not taken. -/
def readExpr (stream : Lookahead) : StreamAnswer × Lookahead :=
  match stream.peek with
  | (none, next) => (.expr none, next)
  | (some token, next) =>
    if token.kind = .closing then (.error (.unexpectedClosing token.position), next)
    else readLoop [] next

/-- One step: its answer, and the stream that is left. -/
def serve (stream : Lookahead) : StreamStep → StreamAnswer × Lookahead
  | .peek => stream.peek.map .token id
  | .advance => stream.advance.map .token id
  | .readExpr => stream.readExpr

/-- A row of steps: their answers, and the stream that is left. -/
def serveAll (stream : Lookahead) : List StreamStep → List StreamAnswer × Lookahead
  | [] => ([], stream)
  | step :: steps =>
    let (answer, next) := stream.serve step
    let (answers, last) := next.serveAll steps
    (answer :: answers, last)

/-! ## Nothing is lost -/

/-- All tokens that the stream has ever had: those taken and those to come. -/
def all (stream : Lookahead) : List Token := stream.taken ++ stream.pending

theorem all_peek (stream : Lookahead) : stream.peek.2.all = stream.all := by
  obtain ⟨taken, buffer, source⟩ := stream
  cases buffer with
  | cons token others => rfl
  | nil => cases source <;> rfl

theorem all_advance (stream : Lookahead) : stream.advance.2.all = stream.all := by
  obtain ⟨taken, buffer, source⟩ := stream
  cases buffer with
  | cons token others => simp [advance, all, pending]
  | nil => cases source <;> simp [advance, all, pending]

theorem all_readLoop (opened : List OpenList) (stream : Lookahead) :
    (readLoop opened stream).2.all = stream.all := by
  have kept := stream.all_advance
  fun_induction readLoop opened stream with
  | case1 stream next h => rwa [h] at kept
  | case2 stream next h inner others => rwa [h] at kept
  | case3 opened stream token next h answer => rwa [h] at kept
  | case4 opened stream token next h opened' _ ih =>
      rw [h] at kept
      exact (ih next.all_advance).trans kept

theorem all_serve (stream : Lookahead) (step : StreamStep) : (stream.serve step).2.all = stream.all := by
  cases step with
  | peek => exact stream.all_peek
  | advance => exact stream.all_advance
  | readExpr =>
      have kept := stream.all_peek
      simp only [serve, readExpr]
      split
      next h => rwa [h] at kept
      next h =>
        rw [h] at kept
        split
        · exact kept
        · exact (all_readLoop [] _).trans kept

/-- **Nothing is lost**: what was taken and what is still to come are the tokens of the start. -/
theorem all_serveAll (stream : Lookahead) (steps : List StreamStep) :
    (stream.serveAll steps).2.all = stream.all := by
  induction steps generalizing stream with
  | nil => rfl
  | cons step steps ih => exact (ih _).trans (stream.all_serve step)

/-! ## The queue -/

/-- The stream of the tokens that are still to come. -/
def queue (stream : Lookahead) : TokenStream := ⟨stream.pending, none⟩

theorem peek_queue (stream : Lookahead) :
    stream.queue.peek = (.ok stream.peek.1, stream.peek.2.queue) := by
  obtain ⟨taken, buffer, source⟩ := stream
  cases buffer with
  | cons token others => rfl
  | nil => cases source <;> rfl

theorem advance_queue (stream : Lookahead) :
    stream.queue.advance = (.ok stream.advance.1, stream.advance.2.queue) := by
  obtain ⟨taken, buffer, source⟩ := stream
  cases buffer with
  | cons token others => rfl
  | nil => cases source <;> rfl

/-- May the loop take a token?  It may if a list is open, or if the token is no closing parenthesis. -/
def Ready (opened : List OpenList) (pending : List Token) : Prop :=
  opened ≠ [] ∨ ∃ token ∈ pending.head?, token.kind ≠ .closing

/-- Where the loop goes on, a list is open. -/
theorem opened_of_accept {token : Token} {opened next : List OpenList}
    (h : accept token opened = .inr next) : next ≠ [] := by
  have placed : ∀ {e outer}, place e outer = .inr next → next ≠ [] := by
    intro e outer h
    cases outer with
    | nil => cases h
    | cons inner others =>
        cases h
        exact List.cons_ne_nil _ _
  simp only [accept] at h
  split at h
  · cases h
    exact List.cons_ne_nil _ _
  · split at h
    · cases h
    · exact placed h
  · split at h
    · cases h
    · exact placed h
  · cases h

/-- A token that the loop may take is accepted as it is read. -/
theorem readWithin_cons {token : Token} {opened : List OpenList} {rest : List Token}
    (ready : Ready opened (token :: rest)) :
    (TokenStream.readWithin none opened (token :: rest)).map .ofExpr id =
      match accept token opened with
      | .inl answer => (answer, ⟨rest, none⟩)
      | .inr next => (TokenStream.readWithin none next rest).map .ofExpr id := by
  obtain ⟨kind, text, position⟩ := token
  cases kind with
  | opening => simp [TokenStream.readWithin, accept]
  | closing =>
      rcases opened with _ | ⟨inner, _ | ⟨outer, others⟩⟩
      · simp [Ready] at ready
      · simp [TokenStream.readWithin, accept, place, StreamAnswer.ofExpr]
      · simp [TokenStream.readWithin, accept, place]
  | symbol =>
      by_cases empty : text = "" <;> cases opened <;>
        simp [TokenStream.readWithin, accept, place, StreamAnswer.ofExpr, empty]
  | other name => cases opened <;> simp [TokenStream.readWithin, accept, StreamAnswer.ofExpr]

/-- The loop reads what the queue reads, if it may take a token at the start: it then may in each
round. -/
theorem readLoop_queue (opened : List OpenList) (stream : Lookahead)
    (ready : Ready opened stream.pending) :
    (TokenStream.readWithin none opened stream.pending).map .ofExpr id =
      (readLoop opened stream).map id queue := by
  fun_induction readLoop opened stream with
  | case1 stream next h =>
      rw [(pending_of_advance_none h).1] at ready
      simp [Ready] at ready
  | case2 stream next h inner others =>
      obtain ⟨ended, rfl⟩ := pending_of_advance_none h
      rw [ended]
      simp [TokenStream.readWithin, TokenStream.atEnd, StreamAnswer.ofExpr, queue, ended]
  | case3 opened stream token next h answer accepted =>
      rw [pending_of_advance h] at ready ⊢
      rw [readWithin_cons ready, accepted]
      rfl
  | case4 opened stream token next h opened' accepted ih =>
      rw [pending_of_advance h] at ready ⊢
      rw [readWithin_cons ready, accepted]
      exact ih (Or.inl (opened_of_accept accepted))

/-- To read an expression is to read it from the queue.  The loop is entered in front of a token that it
may take, since a closing parenthesis has been seen before. -/
theorem readExpr_queue (stream : Lookahead) :
    stream.queue.readExpr.map .ofExpr id = stream.readExpr.map id queue := by
  simp only [TokenStream.readExpr, queue, readExpr]
  split
  next next h =>
    obtain ⟨ended, same⟩ := pending_of_peek h
    have ended : stream.pending = [] := List.head?_eq_none_iff.mp ended.symm
    simp [TokenStream.readWithin, TokenStream.atEnd, StreamAnswer.ofExpr, queue, same, ended]
  next token next h =>
    obtain ⟨front, same⟩ := pending_of_peek h
    obtain ⟨rest, front⟩ := List.head?_eq_some_iff.mp front.symm
    rw [← same] at front ⊢
    split
    next closing =>
      rw [front]
      obtain ⟨kind, text, position⟩ := token
      cases closing
      simp [TokenStream.readWithin, StreamAnswer.ofExpr, queue, front]
    next other => exact readLoop_queue [] next (Or.inr ⟨token, by simp [front], other⟩)

/-- One step is served as by the queue. -/
theorem serve_queue (stream : Lookahead) (step : StreamStep) :
    stream.queue.serve step = (stream.serve step).map id queue := by
  cases step with
  | peek =>
      rw [TokenStream.serve, peek_queue]
      rfl
  | advance =>
      rw [TokenStream.serve, advance_queue]
      rfl
  | readExpr => exact stream.readExpr_queue

/-- **Refinement**: a row of steps is served as by the queue. -/
theorem serveAll_queue (stream : Lookahead) (steps : List StreamStep) :
    stream.queue.serveAll steps = (stream.serveAll steps).map id queue := by
  induction steps generalizing stream with
  | nil => rfl
  | cons step steps ih =>
      simp only [TokenStream.serveAll, serve_queue, serveAll]
      rw [Prod.map_snd, ih]
      rfl

end Lookahead

/-! ## What the queue answers -/

namespace TokenStream

open Reader

/-- No tokens spell a form and go on to spell another one. -/
theorem eq_nil_of_spelling {front more : List Token} {e e' : Expr}
    (spelling : front.map Token.lexeme? = e.lexemes.map some)
    (spelling' : (front ++ more).map Token.lexeme? = e'.lexemes.map some) : more = [] ∧ e' = e := by
  have fed : Reader.start.run front = (⟨[e], []⟩, none) := run_spelling e front spelling Reader.start
  have fed' : Reader.start.run (front ++ more) = (⟨[e'], []⟩, none) :=
    run_spelling e' (front ++ more) spelling' Reader.start
  rw [run_append fed] at fed'
  -- a reader keeps the first form at the end of those that it holds
  have held : ((⟨[e], []⟩ : Reader).run more).1.done =
      (readRest ⟨more, none⟩).1.reverse ++ [e] :=
    (readRest_eq_run ⟨more, none⟩ [e]).1
  rw [fed'] at held
  obtain ⟨_, same⟩ := List.append_inj' (show [] ++ [e'] = _ ++ [e] from held) rfl
  cases same
  have lexemes := lexemes_run fed'
  exact ⟨List.map_eq_nil_iff.mp (List.self_eq_append_right.mp lexemes), rfl⟩

/-- A form is read where the tokens begin with those that spell it, and just these are used up. -/
theorem readExpr_of_spelling {front : List Token} {e : Expr}
    (spelling : front.map Token.lexeme? = e.lexemes.map some) (rest : List Token) :
    readExpr ⟨front ++ rest, none⟩ = (.ok (some e), ⟨rest, none⟩) := by
  cases h : readExpr ⟨front ++ rest, none⟩ with
  | mk found left =>
      rcases found with error | _ | e'
      · have failed : (readExpr ⟨front ++ rest, none⟩).1 = .error error := by rw [h]
        exact absurd spelling (noForm_of_readExpr failed e front (List.prefix_append front rest))
      · have ended : (readExpr ⟨front ++ rest, none⟩).1 = .ok none := by rw [h]
        rw [readExpr_eq_none_iff] at ended
        cases front with
        | nil => cases e <;> cases spelling
        | cons token front => cases ended
      · obtain ⟨front', split, whole, spelling'⟩ := spelling_of_readExpr h
        obtain ⟨pending, failure⟩ := left
        cases whole
        rcases List.append_eq_append_iff.mp split with ⟨more, rfl, rfl⟩ | ⟨more, rfl, rfl⟩
        · obtain ⟨rfl, rfl⟩ := eq_nil_of_spelling spelling spelling'
          rfl
        · obtain ⟨rfl, rfl⟩ := eq_nil_of_spelling spelling' spelling
          rfl

/-- How the next step is served by a queue: a look ahead shows the first token and an advance takes it; the
tokens that an expression takes are those that spell it, there is none at the end alone, and a closing
parenthesis in front is refused and stays. -/
structure ServesNext (stream : TokenStream) : Prop where
  peek : stream.peek = (.ok stream.pending.head?, stream)
  advance : stream.advance = (.ok stream.pending.head?, ⟨stream.pending.tail, none⟩)
  expr (e : Expr) (rest : List Token) : stream.readExpr = (.ok (some e), ⟨rest, none⟩) ↔
    ∃ front, stream.pending = front ++ rest ∧ front.map Token.lexeme? = e.lexemes.map some
  ended : stream.readExpr.1 = .ok none ↔ stream.pending = []
  closing {token : Token} {rest : List Token} : stream.pending = token :: rest →
    token.kind = .closing → stream.readExpr = (.error (.unexpectedClosing token.position), stream)

theorem servesNext (pending : List Token) : ServesNext ⟨pending, none⟩ where
  peek := by cases pending <;> rfl
  advance := by cases pending <;> rfl
  expr e rest := by
    constructor
    · intro h
      obtain ⟨front, split, _, spelling⟩ := spelling_of_readExpr h
      exact ⟨front, split, spelling⟩
    · rintro ⟨front, split, spelling⟩
      cases split
      exact readExpr_of_spelling spelling rest
  ended := by
    rw [readExpr_eq_none_iff]
    cases pending <;> simp [peek, atEnd]
  closing {token rest} front closing := by
    obtain ⟨kind, text, position⟩ := token
    cases front
    cases closing
    simp [readExpr, readWithin]

/-- What is wrong with tokens, if each symbol among them has a text, is an error of reading. -/
theorem kind_of_readWithin {tokens : List Token} {opened : List OpenList} {error : ParseError}
    (texts : ∀ token ∈ tokens, token.kind = .symbol → token.text ≠ "")
    (h : (readWithin none opened tokens).1 = .error error) :
    (Error.reading error).kind = "ParseError" := by
  fun_induction readWithin none opened tokens with
  | case1 => cases h
  | case2 | case4 | case11 =>
      cases h
      rfl
  | case3 _ _ _ _ ih | case6 _ _ _ _ _ _ ih | case10 _ _ _ _ _ _ ih =>
      exact ih (fun token mem => texts token (List.mem_cons_of_mem _ mem)) h
  | case5 | case8 => cases h
  | case7 _ _ kind empty | case9 _ _ _ _ kind empty =>
      exact absurd empty (texts _ List.mem_cons_self kind)

end TokenStream

/-- An answer that is no failure of the stream itself: an error, if it is one, is one of reading. -/
def StreamAnswer.Sound : StreamAnswer → Prop
  | .token _ | .expr _ => True
  | .error failure => (Error.reading failure).kind = "ParseError"
  | .outOfRange => False

namespace Lookahead

variable {stream : Lookahead}

theorem sound_serve
    (texts : ∀ token ∈ stream.all, token.kind = .symbol → token.text ≠ "") (step : StreamStep) :
    (stream.serve step).1.Sound := by
  cases step with
  | peek => trivial
  | advance => trivial
  | readExpr =>
      have same : (stream.serve .readExpr).1 = .ofExpr stream.queue.readExpr.1 :=
        (congrArg Prod.fst stream.readExpr_queue).symm
      rw [same]
      cases h : stream.queue.readExpr.1 with
      | ok found => trivial
      | error error =>
          have texts : ∀ token ∈ stream.pending, token.kind = .symbol → token.text ≠ "" :=
            fun token mem => texts token (List.mem_append_right _ mem)
          exact TokenStream.kind_of_readWithin texts h

/-- In a row of steps nothing fails but reading. -/
theorem sound_serveAll
    (texts : ∀ token ∈ stream.all, token.kind = .symbol → token.text ≠ "")
    (steps : List StreamStep) : ∀ answer ∈ (stream.serveAll steps).1, answer.Sound := by
  induction steps generalizing stream with
  | nil => exact fun _ mem => absurd mem (List.not_mem_nil)
  | cons step steps ih =>
      intro answer mem
      rcases List.mem_cons.mp mem with rfl | mem
      · exact sound_serve texts step
      · have texts : ∀ token ∈ (stream.serve step).2.all, token.kind = .symbol → token.text ≠ "" := by
          rwa [all_serve]
        exact ih texts answer mem

/-- Without the looks ahead a row of steps has the same other answers, and leaves the same tokens. -/
theorem serveAll_filter (stream : Lookahead) (steps : List StreamStep) :
    stream.queue.serveAll (steps.filter (· ≠ .peek)) =
      (otherAnswers steps (stream.serveAll steps).1, (stream.serveAll steps).2.queue) := by
  induction steps generalizing stream with
  | nil => rfl
  | cons step steps ih =>
      by_cases look : step = .peek
      · cases look
        have same : (stream.serve .peek).2.queue = stream.queue :=
          congrArg (TokenStream.mk · none) (pending_of_peek rfl).2
        have rest := ih (stream.serve .peek).2
        rw [same] at rest
        exact rest
      · have other : decide (step ≠ .peek) = true := decide_eq_true look
        simp only [List.filter_cons, other, if_true, TokenStream.serveAll, serve_queue]
        rw [Prod.map_snd, ih]
        simp only [otherAnswers, serveAll, List.zip_cons_cons, List.filter_cons, other, if_true,
          List.map_cons, Prod.map_fst, id]

end Lookahead

/-- **A stream is a queue**.  Tokens of any kinds arrive one at a time, each symbol with a text, and any row of
steps is asked of their stream.  The steps have the answers that the queue of all the tokens gives, and what has
been taken and what is still to come are these tokens, in order.  No step fails but with an error of reading,
and the innermost open list is never asked for where none is open.  With other looks ahead between
them all other steps have the same answers.  And whatever step comes next, it takes from the front what it should:
just the tokens that spell the expression that it reads, and none at a closing parenthesis. -/
theorem stream_is_queue (tokens : List Token)
    (texts : ∀ token ∈ tokens, token.kind = .symbol → token.text ≠ "") (steps : List StreamStep) :
    let served := (Lookahead.start tokens).serveAll steps
    TokenStream.serveAll ⟨tokens, none⟩ steps = (served.1, served.2.queue) ∧
    served.2.taken ++ served.2.queue.pending = tokens ∧
    (∀ answer ∈ served.1, answer.Sound) ∧
    (∀ steps' : List StreamStep, steps'.filter (· ≠ .peek) = steps.filter (· ≠ .peek) →
      let served' := (Lookahead.start tokens).serveAll steps'
      otherAnswers steps' served'.1 = otherAnswers steps served.1 ∧ served'.2.queue = served.2.queue) ∧
    served.2.queue.ServesNext := by
  intro served
  have texts : ∀ token ∈ (Lookahead.start tokens).all, token.kind = .symbol → token.text ≠ "" := texts
  refine ⟨(Lookahead.start tokens).serveAll_queue steps,
    (Lookahead.start tokens).all_serveAll steps, Lookahead.sound_serveAll texts steps, ?_,
    TokenStream.servesNext _⟩
  intro steps' others
  have same := (Lookahead.start tokens).serveAll_filter steps'
  rw [others, (Lookahead.start tokens).serveAll_filter steps] at same
  exact ⟨(congrArg Prod.fst same).symm, (congrArg Prod.snd same).symm⟩

/-- The tokens `(a))`, one of an unknown kind, and `(b`, which closes nothing.  Reading stops at the second
closing parenthesis, which has to be taken by an advance, at the unknown token, and at the end, where
the list is still open; then nothing is left. -/
theorem stream_is_queue_unbalanced :
    let tokens : List Token := [.opening 0, .symbol "a" 1, .closing 2, .closing 3,
      ⟨.other "comment", "x", none⟩, .opening 5, .symbol "b" 6]
    let steps : List StreamStep :=
      [.readExpr, .readExpr, .peek, .advance, .readExpr, .readExpr, .readExpr, .advance]
    let served := (Lookahead.start tokens).serveAll steps
    (∀ token ∈ tokens, token.kind = .symbol → token.text ≠ "") ∧
    served.1 = [.expr (some (.list [.atom "a"])), .error (.unexpectedClosing (some 3)),
      .token (some (.closing 3)), .token (some (.closing 3)), .error (.unknownToken "comment" "x" none),
      .error (.unmatchedOpening (some 5)), .expr none, .token none] ∧
    served.2.taken = tokens := by
  intro tokens steps served
  have texts : ∀ token ∈ tokens, token.kind = .symbol → token.text ≠ "" := by decide
  obtain ⟨alike, kept, _⟩ := stream_is_queue tokens texts steps
  have answers : TokenStream.serveAll ⟨tokens, none⟩ steps = (_, ⟨[], none⟩) := rfl
  obtain ⟨answers, left⟩ := Prod.ext_iff.mp (alike.symm.trans answers)
  refine ⟨texts, answers, ?_⟩
  change served.2.queue = ⟨[], none⟩ at left
  rwa [left, List.append_nil] at kept

end ScopedLisp
