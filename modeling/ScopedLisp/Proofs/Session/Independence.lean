import ScopedLisp.Proofs.Session.SideBySide
import ScopedLisp.Proofs.Settings

/-!
# ScopedLisp.Proofs.Session.Independence

Interpreters that share a session do not notice one another.  A `Company` is a session with any
number of interpreters, each known by a name; an event makes one of them or has it evaluate a
source text.  Whatever the order of the events is, each interpreter answers as it does when its own events
happen alone.

The invariant is `Company.Apart`.  For each interpreter a renaming pairs the addresses that it has
in the company with those that it has alone; no address of the company is paired for two interpreters.
An event of one interpreter leaves what is paired for the others as it was, since evaluation changes
nothing but what has a partner and what is new (`Renaming.Since`).
-/

namespace ScopedLisp

/-! ## Interpreters that share a session -/

/-- A session and the interpreters in it, by name. -/
structure Company (Name : Type) where
  session : Session
  member : Name → Option Interpreter

/-- What may happen in a company. -/
inductive Event (Name : Type) where
  /-- An interpreter is made, under some settings. -/
  | create (name : Name) (settings : Settings)
  /-- An interpreter evaluates a source text. -/
  | eval (name : Name) (source : String)

/-- The interpreter that an event is about. -/
def Event.name {Name : Type} : Event Name → Name
  | .create name _ | .eval name _ => name

namespace Company

variable {Name : Type}

/-- A session without interpreters. -/
def empty (Name : Type) (session : Session) : Company Name := ⟨session, fun _ => none⟩

variable [DecidableEq Name]

/-- An interpreter with a fresh standard environment joins the company in a session. -/
def join (company : Company Name) (name : Name) (session : Session) : Company Name where
  session := { session with heap := session.heap.standardFrame.2 }
  member := Function.update company.member name (some ⟨session.heap.standardFrame.1⟩)

/-- What an event is answered with, and what it leaves.  An interpreter is made once, and answers only
after that; to make one is answered with an error only. -/
def step (company : Company Name) : Event Name → Option (Except Error Value) × Company Name
  | .create name settings =>
    match company.member name with
    | some _ => (none, company)
    | none =>
      match Interpreter.create settings company.session with
      | .ok interpreter session =>
        (none, ⟨session, Function.update company.member name (some interpreter)⟩)
      | .error error session => (some (.error error), { company with session := session })
  | .eval name source =>
    match company.member name with
    | none => (none, company)
    | some interpreter =>
      match interpreter.eval source company.session with
      | .ok value session => (some (.ok value), { company with session := session })
      | .error error session => (some (.error error), { company with session := session })

/-- What the events leave, one after the other. -/
def after (company : Company Name) (events : List (Event Name)) : Company Name :=
  events.foldl (fun company event => (company.step event).2) company

/-- What the events of one interpreter are answered with, among the events of all. -/
def answers (company : Company Name) (name : Name) :
    List (Event Name) → List (Option (Except Error Value))
  | [] => []
  | event :: events =>
    let (answer, company) := company.step event
    if event.name = name then answer :: answers company name events
    else answers company name events

/-- The events of one interpreter. -/
def eventsOf (name : Name) (events : List (Event Name)) : List (Event Name) :=
  events.filter (·.name = name)

end Company

/-! ## What one event changes -/

/-- Of what there was, only what has a partner has changed, and what has a partner since is new. -/
structure Renaming.Moves (ρ : Renaming) (heap after : Heap) (σ : Renaming) : Prop where
  within : ρ.Within σ
  new {a : Address} : σ.Left a → ρ.Left a ∨ ¬heap.Has a
  confined : Heap.Confined ρ.Left heap after

variable {ρ σ τ : Renaming} {heap heap' after after' base base' : Heap}

theorem Renaming.Since.moves (since : ρ.Since heap heap' σ after after') : ρ.Moves heap after σ where
  within := since.within
  new {a} h := by
    cases a with
    | frame f =>
        obtain ⟨f', hf⟩ := h
        exact (since.frame hf).imp (fun h => ⟨f', h⟩) fun h => Nat.not_lt.mpr h.1
    | procedure id =>
        obtain ⟨id', hid⟩ := h
        exact (since.procedure hid).imp (fun h => ⟨id', h⟩) fun h => Nat.not_lt.mpr h.1
  confined := since.confined

theorem Renaming.Moves.trans {mid : Heap} (first : ρ.Moves heap mid σ)
    (second : σ.Moves mid after τ) : ρ.Moves heap after τ where
  within := first.within.trans second.within
  new {a} h := by
    rcases second.new h with h | new
    · exact first.new h
    · exact Or.inr fun has => new (first.confined.has has)
  confined := by
    constructor
    · exact Nat.le_trans first.confined.frames_le second.confined.frames_le
    · exact Nat.le_trans first.confined.procedures_le second.confined.procedures_le
    · intro f lt other
      have other' : ¬σ.Left (.frame f) := fun h =>
        (first.new h).elim other fun new => new lt
      rw [second.confined.frame (Nat.lt_of_lt_of_le lt first.confined.frames_le) other']
      exact first.confined.frame lt other
    · intro id lt other
      have other' : ¬σ.Left (.procedure id) := fun h =>
        (first.new h).elim other fun new => new lt
      rw [second.confined.procedure (Nat.lt_of_lt_of_le lt first.confined.procedures_le) other']
      exact first.confined.procedure lt other

/-- Everything with a partner is there. -/
theorem Heap.Alike.has (alike : heap.Alike ρ heap') {a : Address} (h : ρ.Left a) : heap.Has a := by
  cases a with
  | frame f =>
      obtain ⟨f', hf⟩ := h
      exact (alike.frame_lt hf).1
  | procedure id =>
      obtain ⟨id', hid⟩ := h
      exact (alike.procedure_lt hid).1

/-- Heaps stay alike by a renaming of other addresses. -/
theorem Heap.Alike.of_moves (alike : heap.Alike τ heap') (moves : ρ.Moves heap after σ)
    (apart : ∀ a, τ.Left a → ¬ρ.Left a) : after.Alike τ heap' :=
  alike.congr
    (fun f f' h => moves.confined.frame (alike.frame_lt h).1 (apart (.frame f) ⟨f', h⟩))
    fun id id' h => moves.confined.procedure (alike.procedure_lt h).1 (apart (.procedure id) ⟨id', h⟩)

/-! ## Making an interpreter -/

/-- To install the primitives in paired frames. -/
theorem Renaming.Since.installStandard (since : ρ.Since base base' σ heap heap') {f f' : FrameId}
    (hf : σ.frame f f') :
    ∃ τ, σ.Within τ ∧ ρ.Since base base' τ (heap.installStandard f) (heap'.installStandard f') := by
  have install : ∀ (primitives : List Primitive) {σ heap heap'},
      ρ.Since base base' σ heap heap' → σ.frame f f' →
      ∃ τ, σ.Within τ ∧ ρ.Since base base' τ (primitives.foldl (Heap.installPrimitive f) heap)
        (primitives.foldl (Heap.installPrimitive f') heap') := by
    intro primitives
    induction primitives with
    | nil => exact fun since _ => ⟨_, .refl _, since⟩
    | cons p primitives ih =>
        intro σ heap heap' since hf
        have made := since.newProcedure (p := .primitive p.name p) .primitive
        have within := Renaming.within_addProcedure since.alike
        have value : Value.Alike (σ.addProcedure heap heap' since.alike)
            (.procedure heap.procedures.size) (.procedure heap'.procedures.size) :=
          .procedure (Or.inr ⟨rfl, rfl⟩)
        obtain ⟨τ, within', installed⟩ := ih (made.write (within.frame hf) p.name value) (within.frame hf)
        exact ⟨τ, within.trans within', installed⟩
  obtain ⟨τ, within, installed⟩ := install Primitive.all since hf
  exact ⟨τ, within, installed.write (within.frame hf) "nil" (.flat rfl nofun)⟩

theorem Renaming.moves_newFrame (alike : heap.Alike ρ heap') (parent : Option FrameId)
    (slots : List (String × Value)) :
    ρ.Moves heap (heap.newFrame parent slots).2 (ρ.addFrame heap heap' alike) where
  within := within_addFrame alike
  new {a} h := by
    cases a with
    | frame f =>
        obtain ⟨f', h | ⟨rfl, _⟩⟩ := h
        · exact Or.inl ⟨f', h⟩
        · exact Or.inr (Nat.lt_irrefl _)
    | procedure id => exact Or.inl h
  confined := (Heap.Confined.refl _ heap).newFrame parent slots

/-- To make a standard frame in alike heaps: it has a partner, and every other frame with a partner
and without a parent had both before. -/
theorem Heap.Alike.standardFrame (alike : heap.Alike ρ heap') :
    ∃ σ, ρ.Moves heap heap.standardFrame.2 σ ∧
      heap.standardFrame.2.Alike σ heap'.standardFrame.2 ∧
      σ.frame heap.standardFrame.1 heap'.standardFrame.1 ∧
      ∀ f f', σ.frame f f' → heap.standardFrame.2.parent? f = none →
        f = heap.standardFrame.1 ∨ ρ.frame f f' ∧ heap.parent? f = none := by
  have made := Renaming.Since.start (alike.newFrame .none .nil)
  have root : (ρ.addFrame heap heap' alike).frame heap.frames.size heap'.frames.size :=
    Or.inr ⟨rfl, rfl⟩
  obtain ⟨σ, within, installed⟩ := made.installStandard root
  have moves := (Renaming.moves_newFrame alike none []).trans installed.moves
  refine ⟨σ, moves, installed.alike, within.frame root, fun f f' h outermost => ?_⟩
  obtain ⟨h, outermost⟩ := installed.outermost h outermost
  rcases h with h | ⟨rfl, _⟩
  · rw [parent?_newFrame, if_neg (Nat.ne_of_lt (alike.frame_lt h).1)] at outermost
    exact Or.inr ⟨h, outermost⟩
  · exact Or.inl rfl

/-! ## The invariant -/

section Companies

variable {Name : Type}

/-- What an interpreter answers in a company and alone: alike values or the same error. -/
abbrev Renaming.Answer (ρ : Renaming) : Option (Except Error Value) → Option (Except Error Value) → Prop :=
  Option.Rel (Agree (fun e e' => e = e') (Value.Alike ρ))

/-- The limit on nested calls and the log level of a session. -/
structure Session.Under (limit : Nat) (threshold : LogLevel) (session : Session) : Prop where
  limit_eq : session.depthLimit = limit
  threshold_eq : session.threshold = threshold

theorem Session.Under.withHeap {limit : Nat} {threshold : LogLevel} {session : Session}
    (under : session.Under limit threshold) (heap : Heap) :
    Session.Under limit threshold { session with heap := heap } :=
  ⟨under.limit_eq, under.threshold_eq⟩

/-- An interpreter has in a company, by a renaming, the same as where it is alone.  A frame that has a
partner but no parent is its root frame. -/
structure Company.Likewise (limit : Nat) (threshold : LogLevel) (company : Company Name) (name : Name)
    (ρ : Renaming) (alone : Company Name) : Prop where
  alike : company.session.heap.Alike ρ alone.session.heap
  under : alone.session.Under limit threshold
  member : Option.Rel (fun (i i' : Interpreter) => ρ.frame i.root i'.root) (company.member name)
    (alone.member name)
  outermost {f f' : FrameId} : ρ.frame f f' → company.session.heap.parent? f = none →
    ∃ i, company.member name = some i ∧ f = i.root

/-- The interpreters of a company are apart: each has the same as alone, by a renaming of its own, and no
address has partners for two of them. -/
structure Company.Apart (limit : Nat) (threshold : LogLevel) (company : Company Name)
    (alone : Name → Company Name) (ρ : Name → Renaming) : Prop where
  under : company.session.Under limit threshold
  each (name : Name) : company.Likewise limit threshold name (ρ name) (alone name)
  apart {name other : Name} {a : Address} : name ≠ other → (ρ name).Left a → ¬(ρ other).Left a

variable {limit : Nat} {threshold : LogLevel} {company next : Company Name} {name : Name}

namespace Company.Likewise

variable {alone : Company Name}

/-- An interpreter is there both in its company and alone, or not yet. -/
theorem members (likewise : company.Likewise limit threshold name ρ alone) :
    (company.member name = none ∧ alone.member name = none) ∨
    ∃ i i', company.member name = some i ∧ alone.member name = some i' ∧ ρ.frame i.root i'.root := by
  have member := likewise.member
  generalize company.member name = x at member ⊢
  generalize alone.member name = y at member ⊢
  cases member with
  | none => exact Or.inl ⟨rfl, rfl⟩
  | some root => exact Or.inr ⟨_, _, rfl, rfl, root⟩

/-- Everything that the root frame of an interpreter leads to has a partner. -/
theorem left_of_leads (likewise : company.Likewise limit threshold name ρ alone) {i : Interpreter}
    (member : company.member name = some i) {a : Address}
    (leads : company.session.heap.Leads (· = .frame i.root) a) : ρ.Left a := by
  have root : ρ.Left (.frame i.root) := by
    obtain ⟨i', root⟩ := exists_of_rel_some likewise.member member
    exact ⟨i'.root, root⟩
  refine likewise.alike.left_of_leads ?_ leads
  rintro _ rfl
  exact root

/-- Every frame that it leads to has it as its root. -/
theorem root_of_leads (likewise : company.Likewise limit threshold name ρ alone) {i : Interpreter}
    (member : company.member name = some i) {f : FrameId}
    (leads : company.session.heap.Leads (· = .frame i.root) (.frame f)) :
    company.session.heap.root f = i.root := by
  obtain ⟨⟨root', paired⟩, outermost⟩ :=
    likewise.alike.left_root (likewise.left_of_leads member leads)
  obtain ⟨j, member', eq⟩ := likewise.outermost paired outermost
  rw [member] at member'
  cases member'
  exact eq

/-- An interpreter has what it had when what has no partner for it has moved. -/
theorem of_moves {σ : Renaming} (likewise : company.Likewise limit threshold name τ alone)
    (moves : ρ.Moves company.session.heap next.session.heap σ) (apart : ∀ a, τ.Left a → ¬ρ.Left a)
    (same : next.member name = company.member name) :
    next.Likewise limit threshold name τ alone where
  alike := likewise.alike.of_moves moves apart
  under := likewise.under
  member := same ▸ likewise.member
  outermost {f f'} h outermost := by
    have there := (likewise.alike.frame_lt h).1
    have kept : next.session.heap.frames[f]? = company.session.heap.frames[f]? :=
      moves.confined.frame there (apart (.frame f) ⟨f', h⟩)
    rw [Heap.parent?_congr kept] at outermost
    rw [same]
    exact likewise.outermost h outermost

end Company.Likewise

namespace Company.Apart

variable {alone : Name → Company Name} {ρ : Name → Renaming}

/-- How the session of a company and that of an interpreter alone go on side by side. -/
def pairing (limit : Nat) (threshold : LogLevel) (company : Company Name)
    (alone : Name → Company Name) (ρ : Name → Renaming) (name : Name) : Pairing :=
  ⟨ρ name, company.session.heap, (alone name).session.heap, limit, threshold⟩

theorem joins (apart : Company.Apart limit threshold company alone ρ) (name : Name) :
    (pairing limit threshold company alone ρ name).Joins (ρ name) company.session
      (alone name).session where
  heap := .start (apart.each name).alike
  limit := apart.under.limit_eq
  limit' := (apart.each name).under.limit_eq
  threshold := apart.under.threshold_eq
  threshold' := (apart.each name).under.threshold_eq

/-- Where nothing has happened yet, all are apart. -/
theorem empty (session : Session) :
    Company.Apart session.depthLimit session.threshold (.empty Name session)
      (fun _ => .empty Name session) (fun _ => .on fun _ => False) where
  under := ⟨rfl, rfl⟩
  each _ := {
    alike := ⟨fun h => h.2.elim, fun h => h.2.elim, fun h => h.2.elim, fun h => h.2.elim⟩
    under := ⟨rfl, rfl⟩
    member := .none
    outermost := fun h => h.2.elim }
  apart _ h := (Renaming.left_on.mp h).elim

variable [DecidableEq Name]

/-- One interpreter has moved on, in the company and alone; the others are still apart from it. -/
theorem move (apart : Company.Apart limit threshold company alone ρ) {next' : Company Name}
    {σ : Renaming} (moves : (ρ name).Moves company.session.heap next.session.heap σ)
    (under : next.session.Under limit threshold)
    (likewise : next.Likewise limit threshold name σ next')
    (others : ∀ other, other ≠ name → next.member other = company.member other) :
    Company.Apart limit threshold next (Function.update alone name next')
      (Function.update ρ name σ) := by
  -- what has a partner for another interpreter has none for this one, neither before nor now
  have apart_σ : ∀ other, other ≠ name → ∀ a, (ρ other).Left a → ¬σ.Left a := by
    intro other ne a h hσ
    rcases moves.new hσ with h' | new
    · exact apart.apart ne h h'
    · exact new ((apart.each other).alike.has h)
  constructor
  · exact under
  · intro other
    by_cases eq : other = name
    · subst eq
      simpa using likewise
    · simpa [eq] using
        (apart.each other).of_moves moves (fun a => apart.apart eq) (others other eq)
  · intro first second a ne
    by_cases eq : first = name
    · subst eq
      simp only [Function.update_self, Function.update_of_ne (Ne.symm ne)]
      exact fun h h' => apart_σ second (Ne.symm ne) a h' h
    · by_cases eq' : second = name
      · subst eq'
        simp only [Function.update_self, Function.update_of_ne ne]
        exact apart_σ first ne a
      · simp only [Function.update_of_ne eq, Function.update_of_ne eq']
        exact apart.apart ne

end Company.Apart

/-! ## One event -/

/-- Nobody asks for more nested calls than this. -/
def Event.Modest (limit : Nat) : Event Name → Prop
  | .create _ settings => ∀ requested, settings.readDepthLimit.1 = some requested → requested ≤ limit
  | .eval _ _ => True

/-- What there is to report about settings does not depend on the heap. -/
theorem Settings.line?_of_mem_readDepthLimit {settings : Settings} {r : LogRecord}
    (mem : r ∈ settings.readDepthLimit.2) (heap heap' : Heap) : r.line? heap = r.line? heap' := by
  obtain ⟨text, reason, rfl⟩ := mem_readDepthLimit mem
  rfl

namespace Pairing

variable {p : Pairing} {ρ : Renaming}

theorem matches_recordAll {records : List LogRecord}
    (words : ∀ r ∈ records, ∀ heap heap' : Heap, r.line? heap = r.line? heap') :
    p.Matches ρ (fun _ _ _ => True) (Step.recordAll records) (Step.recordAll records) := by
  induction records generalizing ρ with
  | nil => exact Matches.pure trivial
  | cons r rs ih =>
      have logged : p.Matches ρ (fun _ _ _ => True) (Step.record r) (Step.record r) :=
        matches_record r fun _ _ _ _ => words r (.head rs) _ _
      exact logged.bind fun _ _ _ _ _ => ih fun r mem => words r (.tail _ mem)

/-- A limit that nobody asks to raise stays. -/
theorem matches_raiseDepthLimit {settings : Settings}
    (modest : ∀ requested, settings.readDepthLimit.1 = some requested → requested ≤ p.limit) :
    p.Matches ρ (fun _ _ _ => True) (Step.raiseDepthLimit settings)
      (Step.raiseDepthLimit settings) := by
  have words : ∀ r ∈ settings.readDepthLimit.2, ∀ heap heap', r.line? heap = r.line? heap' :=
    fun _ => Settings.line?_of_mem_readDepthLimit
  unfold Step.raiseDepthLimit
  generalize settings.readDepthLimit = read at modest words
  obtain ⟨requested, records⟩ := read
  refine (matches_recordAll words).bind fun σ _ _ _ _ => ?_
  cases requested with
  | none => exact Matches.pure trivial
  | some requested =>
      have enough := modest requested rfl
      intro s s' joins
      simp only [bind_of_ok (get_eq _), joins.limit, joins.limit', if_pos enough]
      exact .ok (.refl σ) joins trivial

end Pairing

/-- An interpreter is made when the limit on nested calls has been raised. -/
theorem Interpreter.create_eq (settings : Settings) (session : Session) :
    Interpreter.create settings session = match Step.raiseDepthLimit settings session with
      | .ok _ s => .ok ⟨s.heap.standardFrame.1⟩ { s with heap := s.heap.standardFrame.2 }
      | .error e s => .error e s := by
  cases h : Step.raiseDepthLimit settings session with
  | ok _ s => exact bind_of_ok h _
  | error e s => exact bind_of_error h _

namespace Company.Apart

variable [DecidableEq Name] {alone : Name → Company Name} {ρ : Name → Renaming}

/-- One interpreter has moved on as an event wants it, and has answered. -/
def Moved (limit : Nat) (threshold : LogLevel) (company : Company Name) (alone : Name → Company Name)
    (ρ : Name → Renaming) (event : Event Name) : Prop :=
  ∃ σ, (ρ event.name).Within σ ∧
    Apart limit threshold (company.step event).2
      (Function.update alone event.name ((alone event.name).step event).2)
      (Function.update ρ event.name σ) ∧
    σ.Answer (company.step event).1 ((alone event.name).step event).1

/-- Where an event changes nothing, all stay apart. -/
theorem moved_of_still (apart : Company.Apart limit threshold company alone ρ) {event : Event Name}
    (still : company.step event = (none, company))
    (still' : (alone event.name).step event = (none, alone event.name)) :
    Moved limit threshold company alone ρ event := by
  refine ⟨ρ event.name, .refl _, ?_, ?_⟩
  · rw [still, still', Function.update_eq_self, Function.update_eq_self]
    exact apart
  · rw [still, still']
    exact .none

/-- The sessions have come further, and the interpreters are the same as before. -/
theorem move_of_joins (apart : Company.Apart limit threshold company alone ρ) {σ : Renaming}
    {s s' : Session} (joins : (pairing limit threshold company alone ρ name).Joins σ s s') :
    Company.Apart limit threshold { company with session := s }
      (Function.update alone name { alone name with session := s' }) (Function.update ρ name σ) := by
  have since : (ρ name).Since company.session.heap (alone name).session.heap σ s.heap s'.heap :=
    joins.heap
  have likewise : Likewise limit threshold { company with session := s } name σ
      { alone name with session := s' } := by
    constructor
    · exact since.alike
    · exact ⟨joins.limit', joins.threshold'⟩
    · exact rel_imp (apart.each name).member fun i i' root => since.within.frame root
    · intro f f' h outermost
      obtain ⟨h, outermost⟩ := since.outermost h outermost
      exact (apart.each name).outermost h outermost
  exact apart.move since.moves ⟨joins.limit, joins.threshold⟩ likewise fun other ne => rfl

/-- The sessions have come further, and then the interpreter has been made. -/
theorem move_of_made (apart : Company.Apart limit threshold company alone ρ)
    (missing : company.member name = none) {σ : Renaming} {s s' : Session}
    (joins : (pairing limit threshold company alone ρ name).Joins σ s s') :
    ∃ τ, σ.Within τ ∧ Company.Apart limit threshold (company.join name s)
      (Function.update alone name ((alone name).join name s')) (Function.update ρ name τ) := by
  have since : (ρ name).Since company.session.heap (alone name).session.heap σ s.heap s'.heap :=
    joins.heap
  have under : s.Under limit threshold := ⟨joins.limit, joins.threshold⟩
  have under' : s'.Under limit threshold := ⟨joins.limit', joins.threshold'⟩
  obtain ⟨τ, made, alike, root, outermost⟩ := since.alike.standardFrame
  have likewise : (company.join name s).Likewise limit threshold name τ ((alone name).join name s') := by
    constructor
    · exact alike
    · exact under'.withHeap _
    · have made : Option.Rel (fun (i i' : Interpreter) => τ.frame i.root i'.root)
          (some ⟨s.heap.standardFrame.1⟩) (some ⟨s'.heap.standardFrame.1⟩) := .some root
      simpa only [Company.join, Function.update_self] using made
    · intro f f' h none
      have first : f = s.heap.standardFrame.1 := by
        refine (outermost f f' h none).resolve_right fun h => ?_
        obtain ⟨h, none⟩ := since.outermost h.1 h.2
        obtain ⟨i, hi, -⟩ := (apart.each name).outermost h none
        rw [missing] at hi
        cases hi
      exact ⟨_, Function.update_self name _ _, first⟩
  have others : ∀ other, other ≠ name → (company.join name s).member other = company.member other := by
    intro other ne
    simp only [Company.join, Function.update_of_ne ne]
  exact ⟨τ, made.within, apart.move (since.moves.trans made) (under.withHeap _) likewise others⟩

theorem moved_eval (apart : Company.Apart limit threshold company alone ρ) (name : Name)
    (source : String) : Moved limit threshold company alone ρ (.eval name source) := by
  rcases (apart.each name).members with ⟨hi, hi'⟩ | ⟨i, i', hi, hi', root⟩
  · exact apart.moved_of_still (by simp only [step, hi]) (by simp only [Event.name, step, hi'])
  · have ends := Pairing.matches_eval root source _ _ (apart.joins name)
    simp only [Moved, Event.name, step, hi, hi']
    generalize i.eval source company.session = r at ends ⊢
    generalize i'.eval source (alone name).session = r' at ends ⊢
    cases ends with
    | ok within joins hv => exact ⟨_, within, apart.move_of_joins joins, .some (.ok hv)⟩
    | error within joins => exact ⟨_, within, apart.move_of_joins joins, .some (.error rfl)⟩

theorem moved_create (apart : Company.Apart limit threshold company alone ρ) (name : Name)
    {settings : Settings} (modest : (Event.create name settings).Modest limit) :
    Moved limit threshold company alone ρ (.create name settings) := by
  rcases (apart.each name).members with ⟨hi, hi'⟩ | ⟨i, i', hi, hi', root⟩
  · have ends := (pairing limit threshold company alone ρ name).matches_raiseDepthLimit modest _ _
      (apart.joins name)
    simp only [Moved, Event.name, step, hi, hi', Interpreter.create_eq]
    generalize Step.raiseDepthLimit settings company.session = r at ends ⊢
    generalize Step.raiseDepthLimit settings (alone name).session = r' at ends ⊢
    cases ends with
    | error within joins => exact ⟨_, within, apart.move_of_joins joins, .some (.error rfl)⟩
    | ok within joins _ =>
        obtain ⟨τ, within', apart'⟩ := apart.move_of_made hi joins
        exact ⟨τ, within.trans within', apart', .none⟩
  · exact apart.moved_of_still (by simp only [step, hi]) (by simp only [Event.name, step, hi'])

/-- **One event**: the interpreters stay apart, and the answer is like the one given alone. -/
theorem moved (apart : Company.Apart limit threshold company alone ρ) {event : Event Name}
    (modest : event.Modest limit) : Moved limit threshold company alone ρ event := by
  cases event with
  | create name settings => exact apart.moved_create name modest
  | eval name source => exact apart.moved_eval name source

/-! ## Any number of events -/

theorem answer_within {σ τ : Renaming} (within : σ.Within τ) {x y : Option (Except Error Value)}
    (h : σ.Answer x y) : τ.Answer x y := by
  refine rel_imp h fun r r' agree => ?_
  cases agree with
  | ok hv => exact .ok (hv.mono within)
  | error he => exact .error he

variable {event : Event Name}

theorem eventsOf_own (own : event.name = name) (events : List (Event Name)) :
    eventsOf name (event :: events) = event :: eventsOf name events := by
  simp [eventsOf, own]

theorem eventsOf_other (other : event.name ≠ name) (events : List (Event Name)) :
    eventsOf name (event :: events) = eventsOf name events := by
  simp [eventsOf, other]

theorem answers_own (own : event.name = name) (events : List (Event Name)) :
    company.answers name (event :: events) =
      (company.step event).1 :: (company.step event).2.answers name events := by
  simp [answers, own]

theorem answers_other (other : event.name ≠ name) (events : List (Event Name)) :
    company.answers name (event :: events) = (company.step event).2.answers name events := by
  simp [answers, other]

/-- An event is the next one for its own interpreter, and none for any other. -/
theorem after_eventsOf (alone : Name → Company Name) (event : Event Name) (events : List (Event Name))
    (name : Name) :
    (Function.update alone event.name ((alone event.name).step event).2 name).after
        (eventsOf name events) = (alone name).after (eventsOf name (event :: events)) := by
  by_cases own : event.name = name
  · subst own
    rw [Function.update_self, eventsOf_own rfl]
    rfl
  · rw [Function.update_of_ne (Ne.symm own), eventsOf_other own]

/-- **All events**: the interpreters stay apart, and each answers as it does alone. -/
theorem run {events : List (Event Name)} (modest : ∀ event ∈ events, event.Modest limit)
    (apart : Company.Apart limit threshold company alone ρ) :
    ∃ σ : Name → Renaming, (∀ name, (ρ name).Within (σ name)) ∧
      Company.Apart limit threshold (company.after events)
        (fun name => (alone name).after (eventsOf name events)) σ ∧
      ∀ name, List.Forall₂ (σ name).Answer (company.answers name events)
        ((alone name).answers name (eventsOf name events)) := by
  induction events generalizing company alone ρ with
  | nil => exact ⟨ρ, fun name => .refl (ρ name), apart, fun name => .nil⟩
  | cons event events ih =>
      obtain ⟨τ, within, moved, answer⟩ := apart.moved (modest event (.head events))
      obtain ⟨σ, later, apart', answers⟩ := ih (fun event mem => modest event (.tail _ mem)) moved
      have within' : ∀ name, (ρ name).Within (σ name) := by
        intro name
        have step := later name
        by_cases own : name = event.name
        · subst own
          rw [Function.update_self] at step
          exact within.trans step
        · rwa [Function.update_of_ne own] at step
      refine ⟨σ, within', ?_, fun name => ?_⟩
      · simp only [after_eventsOf] at apart'
        exact apart'
      · have answers := answers name
        by_cases own : event.name = name
        · subst own
          rw [Function.update_self] at answers
          rw [answers_own rfl, eventsOf_own rfl, answers_own rfl]
          have step := later event.name
          rw [Function.update_self] at step
          exact .cons (answer_within step answer) answers
        · rw [Function.update_of_ne (Ne.symm own)] at answers
          rw [answers_other own, eventsOf_other own]
          exact answers

end Company.Apart

/-! ## Independence -/

/-- What it means that interpreters do not notice one another, whatever has happened. -/
structure Company.Independent (Name : Type) [DecidableEq Name] (session : Session)
    (events : List (Event Name)) : Prop where
  /-- Each interpreter answers as when its own events happen alone, up to the identity of
  procedures. -/
  answers (name : Name) : let start := Company.empty Name session
    ∃ ρ : Renaming,
      (start.after events).session.heap.Alike ρ (start.after (eventsOf name events)).session.heap ∧
      List.Forall₂ ρ.Answer (start.answers name events) (start.answers name (eventsOf name events))
  /-- The root frame of an interpreter leads to frames of which it is the root. -/
  root {name : Name} {i : Interpreter} {f : FrameId} :
    let company := (Company.empty Name session).after events
    company.member name = some i →
    company.session.heap.Leads (· = .frame i.root) (.frame f) →
    company.session.heap.root f = i.root
  /-- No frame is led to from the root frames of two interpreters. -/
  disjoint {name other : Name} {i j : Interpreter} {a : Address} :
    let company := (Company.empty Name session).after events
    name ≠ other → company.member name = some i → company.member other = some j →
    company.session.heap.Leads (· = .frame i.root) a →
    ¬company.session.heap.Leads (· = .frame j.root) a

/-- **Independence**.  Interpreters that are made in one session, with a limit on nested calls that stays
as it is, do not notice one another, in whatever order they are made and evaluate source texts,
and whether that fails or not. -/
theorem interpreters_independent [DecidableEq Name] (session : Session) (events : List (Event Name))
    (modest : ∀ event ∈ events, event.Modest session.depthLimit) :
    Company.Independent Name session events := by
  obtain ⟨ρ, -, apart, answers⟩ := (Company.Apart.empty session).run modest
  constructor
  · exact fun name => ⟨ρ name, (apart.each name).alike, answers name⟩
  · intro name i f company member leads
    exact (apart.each name).root_of_leads member leads
  · intro name other i j a company ne member member' leads leads'
    exact apart.apart ne ((apart.each name).left_of_leads member leads)
      ((apart.each other).left_of_leads member' leads')

end Companies

/-- Two interpreters are made; one defines a name that the other has no meaning for. -/
theorem interpreters_independent_two :
    let events : List (Event Bool) := [.create true .none, .create false .none,
      .eval true "(define x (lambda () 1))", .eval false "(x)", .eval true "(x)"]
    (∀ event ∈ events, event.Modest Session.start.depthLimit) ∧
    Company.Independent Bool .start events := by
  intro events
  have modest : ∀ event ∈ events, event.Modest Session.start.depthLimit := by
    intro event mem
    simp only [events, List.mem_cons, List.not_mem_nil, or_false] at mem
    rcases mem with rfl | rfl | rfl | rfl | rfl
    · exact nofun
    · exact nofun
    all_goals exact trivial
  exact ⟨modest, interpreters_independent .start events modest⟩

end ScopedLisp
