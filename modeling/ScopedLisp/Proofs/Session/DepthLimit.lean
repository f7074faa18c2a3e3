import Mathlib.Order.Bounds.Basic
import ScopedLisp.Proofs.Session.Reached
import ScopedLisp.Proofs.Settings

/-!
# ScopedLisp.Proofs.Session.DepthLimit

The limit on nested calls, in a session where interpreters are constructed one after the other, each under
settings of its own and with a source text to start with.

What one construction does to the limit depends on its settings alone.  A limit that is asked for is the least one
from then on (`Construction.leads_of_asks`); a setting that makes no sense changes nothing, and the construction goes on
as it does without it (`Construction.leads_of_unasked`).  A limit beyond what the machine can hold is the exception:
it is not ignored, and there is no interpreter (`Construction.fails_of_asks`).  By induction the limit is the greatest
one asked for so far.
-/

namespace ScopedLisp

variable {session start : Session} {settings : Settings} {n : Nat}

/-- The limit on nested calls allows some, and the machine can hold it. -/
structure Session.Sensible (session : Session) : Prop where
  positive : 0 < session.depthLimit
  held : session.depthLimit ≤ Session.greatestDepthLimit

/-! ## Raising the limit -/

namespace Step

/-- That a setting is ignored can always be reported. -/
theorem recordAll_ignored (positive : 0 < session.depthLimit) {records : List LogRecord}
    (ignored : ∀ r ∈ records, ∃ setting text reason, r = .ignored setting text reason) :
    ∃ log, recordAll records session = .ok () { session with log := log } := by
  induction records generalizing session with
  | nil => exact ⟨session.log, rfl⟩
  | cons r records ih =>
      obtain ⟨setting, text, reason, rfl⟩ := ignored r List.mem_cons_self
      obtain ⟨log, first⟩ := record_ok_of_flat (r := .ignored setting text reason) positive rfl nofun
      have positive' : 0 < ({ session with log := log } : Session).depthLimit := positive
      obtain ⟨log', others⟩ := ih positive' fun r mem => ignored r (List.mem_cons_of_mem _ mem)
      exact ⟨log', (bind_of_ok first _).trans others⟩

/-- Raise the limit to this one. -/
def raiseTo (limit : Nat) : Step Unit := do
  if limit ≤ (← get).depthLimit then return ()
  else
    record (.raisingLimit limit)
    if Session.greatestDepthLimit < limit then throw (.evaluation .limitTooLarge)
    else modify fun session => { session with depthLimit := limit }

/-- First it is reported what is ignored, then the limit is raised if that is asked for. -/
theorem raiseDepthLimit_eq (positive : 0 < session.depthLimit) (settings : Settings) :
    ∃ log, raiseDepthLimit settings session = (match settings.readDepthLimit.1 with
      | none => return ()
      | some limit => raiseTo limit : Step Unit) { session with log := log } := by
  have ignored : ∀ r ∈ settings.readDepthLimit.2, ∃ setting text reason, r = .ignored setting text reason :=
    fun r mem => ⟨_, Settings.mem_readDepthLimit mem⟩
  obtain ⟨log, reported⟩ := recordAll_ignored positive ignored
  exact ⟨log, bind_of_ok reported _⟩

/-- A limit that the machine can hold is the limit then, unless it is higher already. -/
theorem raiseTo_held (sensible : session.Sensible) (held : n ≤ Session.greatestDepthLimit) :
    ∃ log, raiseTo n session = .ok () { session with depthLimit := max session.depthLimit n, log := log } := by
  unfold raiseTo
  by_cases enough : n ≤ session.depthLimit
  · refine ⟨session.log, ?_⟩
    rw [bind_of_ok (get_eq session), if_pos enough, Nat.max_eq_left enough]
    rfl
  · obtain ⟨log, reported⟩ := record_ok_of_flat (r := .raisingLimit n) sensible.positive rfl nofun
    refine ⟨log, ?_⟩
    rw [bind_of_ok (get_eq session), if_neg enough, bind_of_ok reported, if_neg (Nat.not_lt.mpr held),
      Nat.max_eq_right (Nat.le_of_not_le enough)]
    rfl

/-- A limit beyond what the machine can hold is an error. -/
theorem raiseTo_beyond (sensible : session.Sensible) (beyond : Session.greatestDepthLimit < n) :
    ∃ log, raiseTo n session = .error (.evaluation .limitTooLarge) { session with log := log } := by
  have more : ¬n ≤ session.depthLimit := Nat.not_le.mpr (Nat.lt_of_le_of_lt sensible.held beyond)
  obtain ⟨log, reported⟩ := record_ok_of_flat (r := .raisingLimit n) sensible.positive rfl nofun
  refine ⟨log, ?_⟩
  rw [raiseTo, bind_of_ok (get_eq session), if_neg more, bind_of_ok reported, if_pos beyond]
  rfl

end Step

/-! ## Constructing an interpreter -/

/-- How an interpreter is constructed: under some settings, with a frame for its root or else a standard
frame of its own, and with a source text that it evaluates first. -/
structure Construction where
  settings : Settings
  root : Option FrameId
  prelude : String

/-- An interpreter that has evaluated a prelude. -/
def Interpreter.prepared (interpreter : Interpreter) (prelude : String) : Step Interpreter := do
  interpreter.evalPrelude prelude
  return interpreter

namespace Construction

/-- Construct the interpreter. -/
def make (c : Construction) : Step Interpreter :=
  match c.root with
  | none => do (← Interpreter.create c.settings).prepared c.prelude
  | some root => do
    Step.raiseDepthLimit c.settings
    Interpreter.prepared ⟨root⟩ c.prelude

/-- What there is to do when the settings have been read. -/
def setUp (c : Construction) : Step Interpreter :=
  match c.root with
  | none => do Interpreter.prepared ⟨← Step.change Heap.standardFrame⟩ c.prelude
  | some root => Interpreter.prepared ⟨root⟩ c.prelude

/-- The session after constructions, one after the other, whether or not they fail. -/
def allAfter (constructions : List Construction) (session : Session) : Session :=
  constructions.foldl (fun session c => c.make.sessionAfter session) session

theorem make_eq (c : Construction) : c.make = Step.raiseDepthLimit c.settings >>= fun _ => c.setUp := by
  unfold make setUp
  cases c.root with
  | none => simp [Interpreter.create]
  | some root => rfl

end Construction

/-- Evaluation leaves the limit as it is. -/
theorem Interpreter.Reaches.depthLimit_eq {interpreter : Interpreter}
    (reached : interpreter.Reaches start session) : session.depthLimit = start.depthLimit := by
  induction reached with
  | start => rfl
  | form e _ ih => exact (interpreter.heap_evalForm e.toValue _).1.trans ih

theorem Interpreter.depthLimit_prepared (interpreter : Interpreter) (prelude : String) (session : Session) :
    ((interpreter.prepared prelude).sessionAfter session).depthLimit = session.depthLimit := by
  have same : (interpreter.prepared prelude).sessionAfter session =
      (interpreter.evalPrelude prelude).sessionAfter session := by
    cases h : interpreter.evalPrelude prelude session with
    | ok _ after =>
        rw [Step.sessionAfter_of_ok h]
        exact Step.sessionAfter_of_ok (bind_of_ok h _)
    | error error after =>
        rw [Step.sessionAfter_of_error h]
        exact Step.sessionAfter_of_error (bind_of_error h _)
  rw [same]
  exact (Reaches.start.evalPrelude prelude).depthLimit_eq

namespace Construction

variable {c : Construction}

theorem depthLimit_setUp (c : Construction) (session : Session) :
    (c.setUp.sessionAfter session).depthLimit = session.depthLimit := by
  unfold setUp
  cases c.root with
  | none => exact Interpreter.depthLimit_prepared _ c.prelude _
  | some root => exact Interpreter.depthLimit_prepared _ c.prelude session

/-- This is the limit from now on.  Apart from that, and from what is reported, the construction goes on as if
there were no settings: with a frame and a prelude. -/
structure Leads (c : Construction) (session : Session) (limit : Nat) : Prop where
  make : ∃ log, c.make session = c.setUp { session with depthLimit := limit, log := log }
  limit : (c.make.sessionAfter session).depthLimit = limit

/-- There is no interpreter, and nothing has changed but the log. -/
def Fails (c : Construction) (session : Session) : Prop :=
  ∃ log, c.make session = .error (.evaluation .limitTooLarge) { session with log := log }

theorem leads_of_raised {limit : Nat} {log : Array String}
    (raised : Step.raiseDepthLimit c.settings session =
      .ok () { session with depthLimit := limit, log := log }) : c.Leads session limit := by
  have made : c.make session = c.setUp { session with depthLimit := limit, log := log } := by
    rw [make_eq, bind_of_ok raised]
  refine ⟨⟨log, made⟩, ?_⟩
  rw [Step.sessionAfter, made]
  exact depthLimit_setUp c { session with depthLimit := limit, log := log }

/-- A setting that is missing or makes no sense changes nothing. -/
theorem leads_of_unasked (positive : 0 < session.depthLimit) (unasked : ∀ n, ¬c.settings.Asks n) :
    c.Leads session session.depthLimit := by
  have requested : c.settings.readDepthLimit.1 = none :=
    Option.eq_none_iff_forall_ne_some.mpr fun n eq => unasked n (Settings.readDepthLimit_eq_some_iff.mp eq)
  obtain ⟨log, raised⟩ := Step.raiseDepthLimit_eq positive c.settings
  rw [requested] at raised
  exact leads_of_raised raised

/-- A limit that is asked for and can be held is the least one from now on. -/
theorem leads_of_asks (sensible : session.Sensible) (asks : c.settings.Asks n)
    (held : n ≤ Session.greatestDepthLimit) : c.Leads session (max session.depthLimit n) := by
  obtain ⟨log, reported⟩ := Step.raiseDepthLimit_eq sensible.positive c.settings
  rw [Settings.readDepthLimit_eq_some_iff.mpr asks] at reported
  have sensible' : Session.Sensible { session with log := log } := ⟨sensible.positive, sensible.held⟩
  obtain ⟨log', raised⟩ := Step.raiseTo_held sensible' held
  exact leads_of_raised (reported.trans raised)

/-- A limit that is asked for and cannot be held is no limit, nor is it ignored. -/
theorem fails_of_asks (sensible : session.Sensible) (asks : c.settings.Asks n)
    (beyond : Session.greatestDepthLimit < n) : c.Fails session := by
  obtain ⟨log, reported⟩ := Step.raiseDepthLimit_eq sensible.positive c.settings
  rw [Settings.readDepthLimit_eq_some_iff.mpr asks] at reported
  have sensible' : Session.Sensible { session with log := log } := ⟨sensible.positive, sensible.held⟩
  obtain ⟨log', refused⟩ := Step.raiseTo_beyond sensible' beyond
  refine ⟨log', ?_⟩
  rw [make_eq]
  exact bind_of_error (reported.trans refused) _

/-! ## One construction after the other -/

/-- The limits that constructions ask for and that can be held. -/
def limits (constructions : List Construction) : Set Nat :=
  {n | ∃ c ∈ constructions, c.settings.Asks n ∧ n ≤ Session.greatestDepthLimit}

theorem limits_cons (c : Construction) (constructions : List Construction) :
    limits (c :: constructions) = limits [c] ∪ limits constructions := by
  ext n
  simp [limits]

/-- After one construction the limit is the greater one of what it was and what was asked for. -/
theorem isGreatest_make (sensible : session.Sensible) (c : Construction) :
    IsGreatest (insert session.depthLimit (limits [c])) (c.make.sessionAfter session).depthLimit := by
  by_cases asked : ∃ n, c.settings.Asks n ∧ n ≤ Session.greatestDepthLimit
  · obtain ⟨n, asks, held⟩ := asked
    have only : limits [c] = {n} := by
      ext m
      simp only [limits, List.mem_singleton, exists_eq_left, Set.mem_ofPred_eq, Set.mem_singleton_iff]
      exact ⟨fun h => h.1.unique asks, fun h => h ▸ ⟨asks, held⟩⟩
    rw [(leads_of_asks sensible asks held).limit, only]
    exact isGreatest_pair
  · have only : limits [c] = ∅ := by
      simpa [limits, Set.eq_empty_iff_forall_notMem] using asked
    have same : (c.make.sessionAfter session).depthLimit = session.depthLimit := by
      by_cases beyond : ∃ n, c.settings.Asks n
      · obtain ⟨n, asks⟩ := beyond
        obtain ⟨log, failed⟩ := fails_of_asks sensible asks (Nat.lt_of_not_le fun held => asked ⟨n, asks, held⟩)
        rw [Step.sessionAfter_of_error failed]
      · exact (leads_of_unasked sensible.positive fun n asks => beyond ⟨n, asks⟩).limit
    rw [same, only, insert_empty_eq]
    exact isGreatest_singleton

theorem sensible_of_isGreatest {after : Session} {constructions : List Construction} (sensible : session.Sensible)
    (greatest : IsGreatest (insert session.depthLimit (limits constructions)) after.depthLimit) :
    after.Sensible := by
  rcases greatest.1 with same | ⟨c, _, asks, held⟩
  · exact ⟨same ▸ sensible.positive, same ▸ sensible.held⟩
  · exact ⟨asks.1, held⟩

/-- After any number of constructions the limit is the greatest that was asked for, or what it was. -/
theorem isGreatest_allAfter (sensible : session.Sensible) (constructions : List Construction) :
    IsGreatest (insert session.depthLimit (limits constructions)) (allAfter constructions session).depthLimit := by
  -- the limit that a construction leaves is sensible again, so the next one can start from it
  induction constructions generalizing session with
  | nil => simp [limits, allAfter]
  | cons c constructions ih =>
      have first := isGreatest_make sensible c
      have later := ih (sensible_of_isGreatest sensible first)
      have raised := later.2 (Set.mem_insert _ _)
      rw [limits_cons]
      constructor
      · rcases later.1 with same | mem
        · have kept : (allAfter (c :: constructions) session).depthLimit ∈
              insert session.depthLimit (limits [c]) := same ▸ first.1
          exact Set.insert_subset_insert Set.subset_union_left kept
        · exact Or.inr (Or.inr mem)
      · rintro n (rfl | mem | mem)
        · exact (first.2 (Set.mem_insert _ _)).trans raised
        · exact (first.2 (Or.inr mem)).trans raised
        · exact later.2 (Or.inr mem)

/-- **The depth limit is a maximum.**  However many interpreters have been constructed in a session, the limit
is the greatest of what it was in the beginning and what the settings of the constructions asked for, as far as the
machine can hold it.  The next construction, whatever its setting is, leaves the greater one of the
limit and what it asks for, or the limit as it is if it asks for none; and no error is due to the setting,
with one exception: it asks for more than the machine can hold. -/
theorem depth_limit_is_maximum {start : Session} (positive : 0 < start.depthLimit)
    (held : start.depthLimit ≤ Session.greatestDepthLimit) (constructions : List Construction) :
    let session := allAfter constructions start
    IsGreatest
      (insert start.depthLimit
        {n | ∃ c ∈ constructions, c.settings.Asks n ∧ n ≤ Session.greatestDepthLimit})
      session.depthLimit ∧
    ∀ c : Construction,
      ((∀ n, ¬c.settings.Asks n) → c.Leads session session.depthLimit) ∧
      ∀ n, c.settings.Asks n →
        (n ≤ Session.greatestDepthLimit → c.Leads session (max session.depthLimit n)) ∧
        (Session.greatestDepthLimit < n → c.Fails session) := by
  intro session
  have greatest := isGreatest_allAfter ⟨positive, held⟩ constructions
  have sensible : session.Sensible := sensible_of_isGreatest ⟨positive, held⟩ greatest
  refine ⟨greatest, fun c => ⟨leads_of_unasked sensible.positive, fun n asks => ⟨?_, ?_⟩⟩⟩
  · exact leads_of_asks sensible asks
  · exact fails_of_asks sensible asks

/-- The limit is raised to 2034, by a text with white space, a sign, an underscore and a digit of another script;
a text that is no integer and one that is too large leave it there, and a fourth raises it again. -/
theorem depth_limit_is_maximum_of_three :
    let constructions : List Construction :=
      [⟨⟨some " +2_0\u06634 ", none⟩, none, ""⟩, ⟨⟨some "5000_", none⟩, some 0, "(car 1)"⟩,
        ⟨⟨some "2147483648", none⟩, none, ""⟩]
    0 < Session.start.depthLimit ∧ Session.start.depthLimit ≤ Session.greatestDepthLimit ∧
    (allAfter constructions .start).depthLimit = 2034 ∧
    Leads ⟨⟨some "3000", none⟩, none, ""⟩ (allAfter constructions .start) 3000 := by
  intro constructions
  have positive : 0 < Session.start.depthLimit := by decide
  have held : Session.start.depthLimit ≤ Session.greatestDepthLimit := by decide
  obtain ⟨greatest, next⟩ := depth_limit_is_maximum positive held constructions
  have few : ∀ c ∈ constructions, ∀ n ∈ c.settings.readDepthLimit.1,
      n ≤ Session.greatestDepthLimit → n ≤ 2034 := by decide
  have raised : (allAfter constructions .start).depthLimit = 2034 := by
    refine greatest.unique ⟨Or.inr ⟨_, .head _, ?_, by decide⟩, ?_⟩
    · exact Settings.readDepthLimit_eq_some_iff.mp (by decide)
    · rintro n (rfl | ⟨c, mem, asks, held⟩)
      · decide
      · exact few c mem n (Settings.readDepthLimit_eq_some_iff.mpr asks) held
  have asks : Settings.Asks ⟨some "3000", none⟩ 3000 := Settings.readDepthLimit_eq_some_iff.mp (by decide)
  have leads := ((next ⟨⟨some "3000", none⟩, none, ""⟩).2 3000 asks).1 (by decide)
  rw [raised] at leads
  exact ⟨positive, held, raised, leads⟩

/-- A limit that is one too large is not ignored. -/
theorem too_large_not_ignored :
    let c : Construction := ⟨⟨some "2147483648", none⟩, none, ""⟩
    c.settings.Asks 2147483648 ∧ Session.greatestDepthLimit = 2147483647 ∧
    (∃ log, c.make .start = .error (.evaluation .limitTooLarge) { Session.start with log := log }) ∧
    Error.kind (.evaluation .limitTooLarge) = "OverflowError" := by
  intro c
  have asks : c.settings.Asks 2147483648 := Settings.readDepthLimit_eq_some_iff.mp (by decide)
  have sensible : Session.start.Sensible := ⟨by decide, by decide⟩
  exact ⟨asks, rfl, fails_of_asks sensible asks (by decide), rfl⟩

end Construction

end ScopedLisp
