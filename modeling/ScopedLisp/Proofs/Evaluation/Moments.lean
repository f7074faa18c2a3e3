import ScopedLisp.Proofs.Evaluation.Involved

/-!
# ScopedLisp.Proofs.Evaluation.Moments

The heaps that a run meets, in the order in which it meets them: the one that it begins with, those
that the runs inside it meet, and the one that it leaves (`Call.Run.MeetsInOrder`).

What holds between one of them and a later one is shown step by step.  A `HeapLaw` is a relation between
heaps, and what is known of an answer to a call.  If each step obeys it between its calls, where they answer
like that (`HeapLaw.Governs`), then it holds between all heaps that are met in order (`HeapLaw.Governs.inOrder`).
-/

namespace ScopedLisp

open Evaluation

/-! ## Calls in a script -/

namespace Script

variable {α : Type} {call : Caller} {script : Script α} {inner : Call} {start heap : Heap}

/-- The heap that a script leaves, however it ends. -/
def heapAfter (call : Caller) (script : Script α) : Heap :=
  match script.run call with
  | .ok _ after | .error _ after => after

/-- A script asks for a call in a heap if each failure of that would be its own. -/
def Asks (call : Caller) (script : Script α) (inner : Call) (start : Heap) : Prop :=
  ∀ failure last, script.run (Caller.failingAt call inner start failure last) = .error failure last

/-- A result is not every failure. -/
theorem not_forall_failure (result : EStateM.Result Failure Heap α) :
    ¬∀ failure last, result = .error failure last := by
  intro h
  cases (h .outOfDepth .empty).symm.trans (h (.error .unwritable) .empty)

/-- A script that begins with a call asks for it. -/
theorem asks_self {next : Value → Heap → Script α} :
    (ask inner start next).Asks call inner start := by
  intro failure last
  simp [run, Caller.failingAt]

/-- What is asked for is the first call, or asked for after it. -/
theorem Asks.cases_ask {c : Call} {next : Value → Heap → Script α}
    (asks : (ask c heap next).Asks call inner start) :
    (c = inner ∧ heap = start) ∨
      ∃ v mid, call c heap = .ok v mid ∧ (next v mid).Asks call inner start := by
  by_cases same : c = inner ∧ heap = start
  · exact Or.inl same
  · right
    simp only [Asks, run, Caller.failingAt, if_neg same] at asks
    cases hc : call c heap with
    | error failure after =>
        simp only [hc] at asks
        exact absurd asks (not_forall_failure _)
    | ok v mid =>
        simp only [hc] at asks
        exact ⟨v, mid, rfl, asks⟩

/-- What is asked for after a call that has answered is asked for. -/
theorem Asks.of_next {c : Call} {next : Value → Heap → Script α} {v : Value} {mid : Heap}
    (hc : call c heap = .ok v mid) (asks : (next v mid).Asks call inner start) :
    (ask c heap next).Asks call inner start := by
  intro failure last
  by_cases same : c = inner ∧ heap = start
  · simp [run, Caller.failingAt, same]
  · simp only [run, Caller.failingAt, if_neg same, hc]
    exact asks failure last

/-- Nothing but the calls that it asks for decides how a script ends. -/
theorem run_eq_of_asks {call' : Caller}
    (same : ∀ inner start, script.Asks call inner start → call' inner start = call inner start) :
    script.run call' = script.run call := by
  induction script with
  | done result => rfl
  | ask c heap next ih =>
      have answer := same c heap asks_self
      simp only [run, answer]
      cases hc : call c heap with
      | error failure after => rfl
      | ok v mid => exact ih v mid fun inner start asks => same inner start (asks.of_next hc)

/-- Of two calls that are asked for, the first: where both fail, its failure counts. -/
structure AsksInOrder (call : Caller) (script : Script α) (first : Call) (start : Heap)
    (second : Call) (start' : Heap) : Prop where
  asks : script.Asks call second start'
  other : ¬(first = second ∧ start = start')
  order : ∀ failure last, script.Asks (call.failingAt second start' failure last) first start

end Script

/-! ## Laws -/

/-- How heaps may follow each other, and what is known of the answer to a call. -/
structure HeapLaw where
  moves : Heap → Heap → Prop
  refl (heap : Heap) : moves heap heap
  trans {before mid after : Heap} : moves before mid → moves mid after → moves before after
  answers : Call → Heap → Value → Heap → Prop
  moves_of_answers {c : Call} {start : Heap} {v : Value} {after : Heap} : answers c start v after →
    moves start after

/-- Is a call performed as the law wants? -/
def Caller.Obeys (call : Caller) (law : HeapLaw) (c : Call) (start : Heap) : Prop :=
  match call c start with
  | .ok v after => law.answers c start v after
  | .error _ after => law.moves start after

namespace Script

variable {α β : Type} {law : HeapLaw} {call : Caller} {script : Script α} {inner first second : Call}
  {start start' heap : Heap}

/-- From a heap on, a script obeys a law, provided that its calls answer as the law says. -/
def Obeys (law : HeapLaw) : Script α → Heap → Prop
  | .done (.ok _ after), heap | .done (.error _ after), heap => law.moves heap after
  | .ask c start next, heap => law.moves heap start ∧
      ∀ v after, law.answers c start v after → (next v after).Obeys law after

/-- A law may be taken up from an earlier heap. -/
theorem Obeys.of_moves {before : Heap} (moves : law.moves before heap) (obeys : script.Obeys law heap) :
    script.Obeys law before := by
  cases script with
  | done result => cases result <;> exact law.trans moves obeys
  | ask c start next => exact ⟨law.trans moves obeys.1, obeys.2⟩

/-- Computations in a row obey if each does, from the heap that the one before has left. -/
theorem Obeys.bind {next : α → Heap → Script β} (obeys : script.Obeys law heap)
    (hnext : ∀ a after, (next a after).Obeys law after) : (script.bind next).Obeys law heap := by
  induction script generalizing heap with
  | done result =>
      cases result with
      | ok a after => exact (hnext a after).of_moves obeys
      | error failure after => exact obeys
  | ask c start more ih => exact ⟨obeys.1, fun v after answers => ih v after (obeys.2 v after answers)⟩

/-- If each call obeys that is asked for in a heap which the law allows, then every call that is asked for does. -/
theorem Obeys.calls (obeys : script.Obeys law heap)
    (h : ∀ inner start, script.Asks call inner start → law.moves heap start → call.Obeys law inner start)
    (asks : script.Asks call inner start) : law.moves heap start ∧ call.Obeys law inner start := by
  induction script generalizing heap with
  | done result => exact absurd asks (not_forall_failure _)
  | ask c begin next ih =>
      have answer := h c begin asks_self obeys.1
      rcases asks.cases_ask with ⟨rfl, rfl⟩ | ⟨v, mid, hc, asks⟩
      · exact ⟨obeys.1, answer⟩
      · simp only [Caller.Obeys, hc] at answer
        have moves := law.trans obeys.1 (law.moves_of_answers answer)
        refine (ih v mid (obeys.2 v mid answer) (fun inner start asks moves' => ?_) asks).imp_left (law.trans moves)
        exact h inner start (asks.of_next hc) (law.trans moves moves')

/-- After an answer, what follows obeys. -/
theorem Obeys.next {c : Call} {next : Value → Heap → Script α} {v : Value} {mid : Heap}
    (obeys : (ask c start next).Obeys law heap)
    (calls : ∀ inner begin, (ask c start next).Asks call inner begin → call.Obeys law inner begin)
    (hc : call c start = .ok v mid) :
    law.moves start mid ∧ (next v mid).Obeys law mid ∧
      ∀ inner begin, (next v mid).Asks call inner begin → call.Obeys law inner begin := by
  have answer := calls c start asks_self
  simp only [Caller.Obeys, hc] at answer
  exact ⟨law.moves_of_answers answer, obeys.2 v mid answer, fun inner begin asks =>
    calls inner begin (asks.of_next hc)⟩

variable (obeys : script.Obeys law heap)
  (calls : ∀ inner start, script.Asks call inner start → call.Obeys law inner start)

include obeys calls

/-- The heap that an obedient script leaves is one that the law allows. -/
theorem Obeys.moves_heapAfter : law.moves heap (script.heapAfter call) := by
  induction script generalizing heap with
  | done result => cases result <;> exact obeys
  | ask c start next ih =>
      simp only [heapAfter, run]
      cases hc : call c start with
      | error failure after =>
          have answer := calls c start asks_self
          simp only [Caller.Obeys, hc] at answer
          exact law.trans obeys.1 answer
      | ok v mid =>
          obtain ⟨answer, obeys', calls'⟩ := obeys.next calls hc
          exact law.trans (law.trans obeys.1 answer) (ih v mid obeys' calls')

/-- What is asked for begins in a heap that the law allows, and leaves one from which it goes on. -/
theorem Obeys.moves_asks (asks : script.Asks call inner start) :
    law.moves heap start ∧ law.moves (Evaluation.heapAfter (call inner) start) (script.heapAfter call) := by
  induction script generalizing heap with
  | done result => exact absurd asks (not_forall_failure _)
  | ask c begin next ih =>
      cases hc : call c begin with
      | error failure after =>
          rcases asks.cases_ask with ⟨rfl, rfl⟩ | ⟨v, mid, hc', _⟩
          · refine ⟨obeys.1, ?_⟩
            simp only [heapAfter, run, Evaluation.heapAfter, hc]
            exact law.refl after
          · rw [hc] at hc'
            cases hc'
      | ok v mid =>
          obtain ⟨answer, obeys', calls'⟩ := obeys.next calls hc
          have eq : (ask c begin next).heapAfter call = (next v mid).heapAfter call := by
            simp only [heapAfter, run, hc]
          rw [eq]
          rcases asks.cases_ask with ⟨rfl, rfl⟩ | ⟨v', mid', hc', asks'⟩
          · refine ⟨obeys.1, ?_⟩
            simp only [Evaluation.heapAfter, hc]
            exact obeys'.moves_heapAfter calls'
          · rw [hc] at hc'
            cases hc'
            obtain ⟨moves, rest⟩ := ih v mid obeys' calls' asks'
            exact ⟨law.trans (law.trans obeys.1 answer) moves, rest⟩

/-- Of two calls that are asked for, the second one begins where the law leads from the first one. -/
theorem Obeys.moves_asksInOrder (inOrder : AsksInOrder call script first start second start') :
    law.moves (Evaluation.heapAfter (call first) start) start' := by
  obtain ⟨asks, other, order⟩ := inOrder
  induction script generalizing heap with
  | done result => exact absurd asks (not_forall_failure _)
  | ask c begin next ih =>
      rcases asks.cases_ask with ⟨rfl, rfl⟩ | ⟨v, mid, hc, asks'⟩
      · -- the second one would be asked for before the first one
        rcases (order .outOfDepth .empty).cases_ask with ⟨rfl, rfl⟩ | ⟨v, mid, hc, _⟩
        · exact absurd ⟨rfl, rfl⟩ other
        · simp [Caller.failingAt] at hc
      · obtain ⟨_, obeys', calls'⟩ := obeys.next calls hc
        by_cases same : c = first ∧ begin = start
        · obtain ⟨rfl, rfl⟩ := same
          simp only [Evaluation.heapAfter, hc]
          exact (obeys'.moves_asks calls' asks').1
        · refine ih v mid obeys' calls' asks' fun failure last => ?_
          rcases (order failure last).cases_ask with same' | ⟨v', mid', hc', order'⟩
          · exact absurd same' same
          · simp only [Caller.failingAt] at hc'
            split at hc'
            · cases hc'
            · rw [hc] at hc'
              cases hc'
              exact order'

end Script

/-! ## Computations under a law -/

/-- From a heap on, a computation that makes calls is a script that obeys a law where it has had `fair` answers. -/
def Obeying {α : Type} (law : HeapLaw) (fair : Prop) (heap : Heap) (x : Caller → Evaluation α) : Prop :=
  ∃ script : Script α, (fair → script.Obeys law heap) ∧ ∀ call, x call heap = script.run call

namespace Obeying

variable {α β : Type} {law : HeapLaw} {fair : Prop} {heap mid : Heap}

/-- A computation without calls. -/
theorem alone {x : Evaluation α} (moves : fair → law.moves heap (heapAfter x heap)) :
    Obeying law fair heap fun _ => x := by
  refine ⟨.done (x heap), fun hfair => ?_, fun _ => rfl⟩
  have moves := moves hfair
  rw [heapAfter] at moves
  cases hx : x heap with
  | ok a after =>
      rw [hx] at moves
      exact moves
  | error failure after =>
      rw [hx] at moves
      exact moves

/-- A computation without calls that changes nothing. -/
theorem still {x : Evaluation α} (keeps : ∀ P : Heap → Prop, Keeps P x) : Obeying law fair heap fun _ => x := by
  refine alone fun _ => ?_
  rw [keeps (· = heap) heap rfl]
  exact law.refl heap

theorem pure (a : α) : Obeying law fair heap fun _ => (Pure.pure a : Evaluation α) := still fun _ => .pure a

theorem call (c : Call) : Obeying law fair heap fun call => call c := by
  refine ⟨.ask c heap fun v after => .done (.ok v after), fun _ => ⟨law.refl heap, fun v after _ => law.refl after⟩,
    fun call => ?_⟩
  simp only [Script.run]
  cases call c heap <;> rfl

/-- A call, and what follows with its answer. -/
theorem ask (c : Call) {next : Caller → Value → Evaluation α}
    (hnext : ∀ v after, Obeying law (fair ∧ law.answers c heap v after) after fun call => next call v) :
    Obeying law fair heap fun call => call c >>= next call := by
  choose more obeys hrun using hnext
  refine ⟨.ask c heap more, fun hfair => ⟨law.refl heap, fun v after answers => obeys v after ⟨hfair, answers⟩⟩,
    fun call => ?_⟩
  simp only [Script.run, Bind.bind, EStateM.bind]
  cases call c heap with
  | ok v after => exact hrun v after call
  | error failure after => rfl

/-- Computations in a row are under the law if each is. -/
theorem bind {x : Caller → Evaluation α} {next : Caller → α → Evaluation β} (hx : Obeying law fair heap x)
    (hnext : ∀ a after, Obeying law fair after fun call => next call a) :
    Obeying law fair heap fun call => x call >>= next call := by
  obtain ⟨script, obeys, hrun⟩ := hx
  choose more hmore hmoreRun using hnext
  refine ⟨script.bind more, fun hfair => (obeys hfair).bind fun a after => hmore a after hfair, fun call => ?_⟩
  rw [Script.run_bind, ← hrun]
  simp only [Bind.bind, EStateM.bind]
  cases x call heap with
  | ok a after => exact hmoreRun a after call
  | error failure after => rfl

/-- A change of the heap, and what follows it. -/
theorem after {x : Evaluation α} {a : α} {next : Caller → α → Evaluation β} (ran : x heap = .ok a mid)
    (moves : fair → law.moves heap mid) (hnext : Obeying law fair mid fun call => next call a) :
    Obeying law fair heap fun call => x >>= next call := by
  obtain ⟨script, obeys, hrun⟩ := hnext
  refine ⟨script, fun hfair => (obeys hfair).of_moves (moves hfair), fun call => ?_⟩
  exact (bind_of_ok ran _).trans (hrun call)

theorem ite {p : Prop} [Decidable p] {x y : Caller → Evaluation α} (hx : p → Obeying law fair heap x)
    (hy : ¬p → Obeying law fair heap y) : Obeying law fair heap fun call => if p then x call else y call := by
  by_cases h : p
  · simpa only [if_pos h] using hx h
  · simpa only [if_neg h] using hy h

/-- What a computation does in one heap may be known in other words. -/
theorem congr {x y : Caller → Evaluation α} (hx : Obeying law fair heap x)
    (eq : ∀ call, y call heap = x call heap) : Obeying law fair heap y := by
  obtain ⟨script, obeys, hrun⟩ := hx
  exact ⟨script, obeys, fun call => (eq call).trans (hrun call)⟩

/-- The parts of a checked shape, and what follows with them. -/
theorem shaped {remaining : Nat} {parts : Shape.Checked α} {next : Caller → α → Evaluation β}
    (hnext : ∀ a, parts = .ok a → Obeying law fair heap fun call => next call a) :
    Obeying law fair heap fun call => Evaluation.shaped remaining parts >>= next call := by
  cases parts with
  | ok a => exact hnext a rfl
  | error error =>
      refine congr (still fun _ => .shaped remaining (.error error : Shape.Checked β)) fun call => ?_
      simp only [Evaluation.shaped]
      split <;> rfl

/-- What is evaluated in turn is under the law if each member is. -/
theorem evalEach {eval : Caller → Value → Evaluation Value}
    (heval : ∀ e after, Obeying law fair after fun call => eval call e) (es : List Value) :
    Obeying law fair heap fun call => Evaluation.evalEach (eval call) es := by
  induction es generalizing heap with
  | nil => exact pure []
  | cons e es ih => exact (heval e heap).bind fun v _ => ih.bind fun vs _ => pure (v :: vs)

/-- What is evaluated in turn for its last value is under the law if each member is. -/
theorem evalLast {eval : Caller → Value → Evaluation Value}
    (heval : ∀ e after, Obeying law fair after fun call => eval call e) (es : List Value) :
    Obeying law fair heap fun call => Evaluation.evalLast (eval call) es := by
  induction es generalizing heap with
  | nil => exact pure _
  | cons e es ih =>
      cases es with
      | nil => exact heval e heap
      | cons e' es => exact (heval e heap).bind fun _ _ => ih

/-! ### Steps that leave the heap to their calls -/

variable {env : FrameId}

/-- `if` does nothing to the heap but what its operands do. -/
theorem runIf (remaining : Nat) (operands : List Value) :
    Obeying law fair heap fun call => Form.runIf remaining call operands env := by
  refine shaped fun ⟨test, positive, negative⟩ _ => (call (.eval test env)).bind fun v after => ?_
  refine ite (fun _ => call _) fun _ => ?_
  cases negative with
  | some e => exact call _
  | none => exact pure _

theorem runBegin (operands : List Value) :
    Obeying law fair heap fun call => Form.runBegin call operands env :=
  ite (fun _ => still fun _ => .fail _) fun _ => evalLast (fun e _ => call (.eval e env)) operands

theorem runAnd (es : List Value) : Obeying law fair heap fun call => Form.runAnd call env es := by
  induction es generalizing heap with
  | nil => exact pure _
  | cons e es ih =>
      cases es with
      | nil => exact call (.eval e env)
      | cons e' es => exact (call (.eval e env)).bind fun v _ => ite (fun _ => ih) fun _ => pure _

theorem runOr (es : List Value) : Obeying law fair heap fun call => Form.runOr call env es := by
  induction es generalizing heap with
  | nil => exact pure _
  | cons e es ih => exact (call (.eval e env)).bind fun v _ => ite (fun _ => pure v) fun _ => ih

/-- `cond` does nothing to the heap but what its tests and bodies do. -/
theorem runCond (remaining : Nat) (clauses : List Value) :
    Obeying law fair heap fun call => Form.runCond remaining call env clauses := by
  induction clauses generalizing heap with
  | nil => exact pure _
  | cons clause rest ih =>
      unfold Form.runCond
      split
      · exact pure _
      next test body rest eq =>
        cases eq
        have last : ∀ after, Obeying law fair after fun call =>
            Evaluation.evalLast (fun e => call (.eval e env)) body :=
          fun after => evalLast (fun e _ => call (.eval e env)) body
        split
        · exact ite (fun _ => still fun _ => .fail _) fun _ => ite (fun _ => still fun _ => .fail _) fun _ => last heap
        · refine (call (.eval test env)).bind fun v after => ?_
          exact ite (fun _ => ih) fun _ => ite (fun _ => pure v) fun _ => last after
      · exact still fun _ => .shaped remaining _

/-- An application does nothing to the heap before the procedure is applied. -/
theorem evalItems (items : List Value) :
    Obeying law fair heap fun call => Call.evalItems call items env := by
  cases items with
  | nil => exact still fun _ => .fail _
  | cons head operands =>
      simp only [Call.evalItems]
      cases Keyword.ofHead? head with
      | some keyword => exact call _
      | none =>
          refine (call (.eval head env)).bind fun procedure _ => ?_
          refine (evalEach (fun e _ => call (.nested (.eval e env))) operands).bind fun args _ => ?_
          exact call (.apply procedure args env)

theorem evalAtom (text : String) : Obeying law fair heap fun _ => Call.evalAtom text env := by
  simp only [Call.evalAtom]
  split
  · exact pure _
  · exact pure _
  · exact pure _
  · exact still fun _ => .fail _
  · exact still fun _ => .query _

/-- Evaluation leaves the heap to its calls. -/
theorem evalCode (code : Value) : Obeying law fair heap fun call => Call.evalCode call code env := by
  unfold Call.evalCode
  split
  · exact evalAtom _
  · exact evalItems _
  · exact evalItems _
  · exact still fun _ => .failShowing _ _

end Obeying

/-! ## Moments of a run -/

namespace Call.Run

/-- Of two runs that a run makes, the first: where both fail, its failure counts. -/
structure MakesInOrder (outer first second : Run) : Prop where
  makes_first : outer.Makes first
  makes_second : outer.Makes second
  other : first ≠ second
  order : ∀ failure last failure' last',
    step first.levels
      (Caller.failingAt (Caller.failingAt (perform first.levels) second.call second.heap failure last)
        first.call first.heap failure' last')
      outer.call outer.heap = .error failure' last'

/-- The heaps that a run meets: its own, those that the runs inside it meet, and the one that it
leaves. -/
inductive Meets : Run → Heap → Prop where
  | start {run : Run} : Meets run run.heap
  | inside {outer inner : Run} {heap : Heap} : outer.Makes inner → Meets inner heap →
      Meets outer heap
  | finish {run : Run} : Meets run run.heapAfter

/-- A run meets a heap and, at the same time or later on, another one. -/
inductive MeetsInOrder : Run → Heap → Heap → Prop where
  | start {run : Run} {after : Heap} : Meets run after → MeetsInOrder run run.heap after
  | inside {outer inner : Run} {before after : Heap} : outer.Makes inner →
      MeetsInOrder inner before after → MeetsInOrder outer before after
  | between {outer first second : Run} {before after : Heap} : outer.MakesInOrder first second →
      Meets first before → Meets second after → MeetsInOrder outer before after
  | finish {run : Run} {before : Heap} : Meets run before → MeetsInOrder run before run.heapAfter

/-- Of two heaps that are met in order, the first is met. -/
theorem MeetsInOrder.left {run : Run} {before after : Heap} (meets : run.MeetsInOrder before after) :
    run.Meets before := by
  induction meets with
  | start _ => exact .start
  | inside makes _ ih => exact .inside makes ih
  | between makes meets _ => exact .inside makes.makes_first meets
  | finish meets => exact meets

end Call.Run

/-! ## Runs under a law -/

/-- Steps of some runs obey a law, and their calls are such runs again, where they begin in a heap that the law
allows.  What the law says of answers may be more than what it says of heaps. -/
structure HeapLaw.Governs (law : HeapLaw) (permits : Call.Run → Prop) : Prop where
  makes {outer inner : Call.Run} : permits outer → outer.Makes inner → law.moves outer.heap inner.heap →
    permits inner
  scripted {levels : Nat} {c : Call} {heap : Heap} : permits ⟨levels + 1, c, heap⟩ →
    Obeying law True heap fun call => Call.step levels call c
  answers {levels : Nat} {c : Call} {heap after : Heap} {v : Value} : permits ⟨levels, c, heap⟩ →
    Call.perform levels c heap = .ok v after → law.moves heap after → law.answers c heap v after

namespace HeapLaw.Governs

open Call Call.Run

variable {law : HeapLaw} {permits : Run → Prop} {run outer inner first second : Run} {before after : Heap}

variable (governs : law.Governs permits)

include governs

/-- The step of a run as a script, all calls of which obey the law if permitted calls with fewer levels do. -/
theorem exists_script {levels : Nat} {c : Call} {heap : Heap} (permitted : permits ⟨levels + 1, c, heap⟩)
    (obey : ∀ {c heap}, permits ⟨levels, c, heap⟩ → Caller.Obeys (perform levels) law c heap) :
    ∃ script : Script Value, script.Obeys law heap ∧
      (∀ inner start, script.Asks (perform levels) inner start → law.moves heap start ∧
        permits ⟨levels, inner, start⟩ ∧ Caller.Obeys (perform levels) law inner start) ∧
      ∀ call, step levels call c heap = script.run call := by
  obtain ⟨script, obeys, runs⟩ := governs.scripted permitted
  have obeys := obeys trivial
  have next : ∀ {inner start}, script.Asks (perform levels) inner start → law.moves heap start →
      permits ⟨levels, inner, start⟩ := by
    intro inner start asks moves
    have makes : Makes ⟨levels + 1, c, heap⟩ ⟨levels, inner, start⟩ :=
      ⟨rfl, fun failure last => (runs _).trans (asks failure last)⟩
    exact governs.makes permitted makes moves
  refine ⟨script, obeys, fun inner start asks => ?_, runs⟩
  have both := obeys.calls (fun inner start asks moves => obey (next asks moves)) asks
  exact ⟨both.1, next asks both.1, both.2⟩

/-- Every call that the law permits obeys it, with any number of levels. -/
theorem obeys {levels : Nat} {c : Call} {heap : Heap} (permitted : permits ⟨levels, c, heap⟩) :
    Caller.Obeys (perform levels) law c heap := by
  induction levels generalizing c heap with
  | zero => exact law.refl heap
  | succ levels ih =>
      obtain ⟨script, obeys, calls, runs⟩ := governs.exists_script permitted ih
      have moves := obeys.moves_heapAfter fun inner start asks => (calls inner start asks).2.2
      have same : perform (levels + 1) c heap = script.run (perform levels) := runs _
      simp only [Script.heapAfter, ← same] at moves
      simp only [Caller.Obeys]
      cases ran : perform (levels + 1) c heap with
      | ok v after =>
          rw [ran] at moves
          exact governs.answers permitted ran moves
      | error failure after =>
          rw [ran] at moves
          exact moves

/-- The law holds between the heap that a permitted run begins in and the one that it leaves. -/
theorem moves_heapAfter (permitted : permits run) : law.moves run.heap run.heapAfter := by
  have obeys : Caller.Obeys (perform run.levels) law run.call run.heap := governs.obeys permitted
  simp only [Caller.Obeys] at obeys
  rw [Run.heapAfter, Evaluation.heapAfter]
  cases ran : perform run.levels run.call run.heap with
  | ok v after =>
      rw [ran] at obeys
      exact law.moves_of_answers obeys
  | error failure after =>
      rw [ran] at obeys
      exact obeys

/-- What a permitted run makes is permitted, and the law leads to its heap, and from the one that it leaves. -/
theorem of_makes (permitted : permits outer) (makes : outer.Makes inner) :
    permits inner ∧ law.moves outer.heap inner.heap ∧ law.moves inner.heapAfter outer.heapAfter := by
  obtain ⟨levels, c, heap⟩ := outer
  obtain ⟨rfl, fails⟩ := makes
  obtain ⟨script, obeys, calls, runs⟩ := governs.exists_script permitted governs.obeys
  have asks : script.Asks (perform inner.levels) inner.call inner.heap :=
    fun failure last => (runs _).symm.trans (fails failure last)
  have eq : Run.heapAfter ⟨inner.levels + 1, c, heap⟩ = script.heapAfter (perform inner.levels) := by
    rw [Run.heapAfter, Evaluation.heapAfter, perform, runs]
    rfl
  rw [eq]
  have both := obeys.moves_asks (fun inner start asks => (calls inner start asks).2.2) asks
  exact ⟨(calls _ _ asks).2.1, both⟩

/-- From one call to the next the heap moves as the law allows. -/
theorem of_makesInOrder (permitted : permits outer) (makes : outer.MakesInOrder first second) :
    law.moves first.heapAfter second.heap := by
  obtain ⟨levels, c, heap⟩ := outer
  obtain ⟨⟨rfl, _⟩, ⟨eq, fails⟩, other, order⟩ := makes
  obtain ⟨levels, first, start⟩ := first
  obtain ⟨levels', second, start'⟩ := second
  cases eq
  obtain ⟨script, obeys, calls, runs⟩ := governs.exists_script permitted governs.obeys
  have inOrder : script.AsksInOrder (perform levels) first start second start' := by
    refine ⟨fun failure last => (runs _).symm.trans (fails failure last), ?_, ?_⟩
    · rintro ⟨rfl, rfl⟩
      exact other rfl
    · exact fun failure last failure' last' =>
        (runs _).symm.trans (order failure last failure' last')
  exact obeys.moves_asksInOrder (fun inner start asks => (calls inner start asks).2.2) inOrder

/-- The law leads from the heap of a permitted run to each heap that it meets, and from there to the one that it
leaves. -/
theorem meets (permitted : permits run) (meets : run.Meets after) :
    law.moves run.heap after ∧ law.moves after run.heapAfter := by
  induction meets with
  | start => exact ⟨law.refl _, governs.moves_heapAfter permitted⟩
  | finish => exact ⟨governs.moves_heapAfter permitted, law.refl _⟩
  | @inside outer inner heap makes _ ih =>
      obtain ⟨permitted', enter, leave⟩ := governs.of_makes permitted makes
      obtain ⟨first, last⟩ := ih permitted'
      exact ⟨law.trans enter first, law.trans last leave⟩

/-- **The law holds between all heaps** that a permitted run meets in order. -/
theorem inOrder (permitted : permits run) (meets : run.MeetsInOrder before after) : law.moves before after := by
  induction meets with
  | start meets => exact (governs.meets permitted meets).1
  | finish meets => exact (governs.meets permitted meets).2
  | inside makes _ ih => exact ih (governs.of_makes permitted makes).1
  | between makes meets meets' =>
      have first := (governs.meets (governs.of_makes permitted makes.makes_first).1 meets).2
      have second := (governs.meets (governs.of_makes permitted makes.makes_second).1 meets').1
      exact law.trans (law.trans first (governs.of_makesInOrder permitted makes)) second

/-- What a permitted run involves is permitted. -/
theorem of_involves (permitted : permits run) (involves : run.Involves inner) : permits inner := by
  induction involves with
  | refl => exact permitted
  | tail _ makes ih => exact (governs.of_makes ih makes).1

end HeapLaw.Governs

end ScopedLisp
