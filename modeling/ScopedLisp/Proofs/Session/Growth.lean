import ScopedLisp.Proofs.Evaluation.Order
import ScopedLisp.Proofs.Heap.Standard
import ScopedLisp.Proofs.Session.Reached

/-!
# ScopedLisp.Proofs.Session.Growth

Over a whole session the heap only grows: every form, every call inside its evaluation and every
text, failing ones included, leaves a sound heap that extends the one it began with.  So walks
outward end at every moment, and a name that could be looked up from a frame once can be looked
up from it ever after.
-/

namespace ScopedLisp

namespace Interpreter

variable {interpreter : Interpreter} {start session : Session}

/-- Where forms belong to a territory, every session that is reached from one in it is in it, and its
heap has grown. -/
theorem Reaches.kept {t : Territory} (reached : interpreter.Reaches start session)
    (kept : t.Kept start.heap start.heap) (root : t.frame interpreter.root)
    (lt : interpreter.root < start.heap.frames.size) (codes : ∀ e : Expr, t.codes.mem e.toValue) :
    t.Kept start.heap session.heap := by
  induction reached with
  | start => exact kept
  | @form session e _ ih =>
      rcases (heap_evalForm interpreter e.toValue session).2 with eq | eq
      · rw [eq]
        exact ih
      · have lt := Nat.lt_of_lt_of_le lt ih.growth.frames_le
        have permits : t.Permits ⟨session.depthLimit, .eval e.toValue interpreter.root, session.heap⟩ :=
          ⟨Territory.kept_self ih.sound ih.closed, codes e, root, lt⟩
        have after := Territory.kept_heapAfter permits
        rw [eq]
        exact ⟨after.sound, after.closed, ih.growth.trans after.growth⟩

/-- Every session that is reached has a sound heap that has grown. -/
theorem Reaches.grown (reached : interpreter.Reaches start session) (sound : start.heap.Sound)
    (root : interpreter.root < start.heap.frames.size) :
    session.heap.Sound ∧ start.heap.Extends session.heap := by
  have kept := reached.kept (Territory.kept_self sound (Territory.closed_everything _)) trivial root
    fun _ => trivial
  exact ⟨kept.sound, kept.growth⟩

end Interpreter

/-- **Growth**: in a session that begins with a sound heap, the heap only grows.

* The heap of every session that is reached is sound and extends the one at the start.  Texts and
  preludes reach such sessions, also if they fail.
* The same holds of the heaps that a call meets inside an evaluation, in their order: they are sound,
  each extends those before it, and what could be looked up once can be looked up later.
* In particular it can be looked up in every session that is reached after the evaluation of the
  form in which it could be looked up.
* At every moment the walks outward end. -/
theorem session_grows {interpreter : Interpreter} {start session : Session}
    (sound : start.heap.Sound) (root : interpreter.root < start.heap.frames.size)
    (reached : interpreter.Reaches start session) :
    (session.heap.Sound ∧ session.heap.WalksEnd ∧
      start.heap.Extends session.heap ∧ start.heap.StaysBound session.heap) ∧
    (∀ source, interpreter.Reaches start ((interpreter.eval source).sessionAfter session) ∧
      interpreter.Reaches start ((interpreter.evalPrelude source).sessionAfter session)) ∧
    (∀ code env, env < session.heap.frames.size → ∀ run,
      Call.Run.Involves ⟨session.depthLimit, .eval code env, session.heap⟩ run →
        (∀ heap, run.Meets heap → heap.Sound ∧ heap.WalksEnd) ∧
        ∀ before after, run.MeetsInOrder before after →
          before.Extends after ∧ before.StaysBound after) ∧
    ∀ e : Expr, let run : Call.Run :=
        ⟨session.depthLimit, .eval e.toValue interpreter.root, session.heap⟩
      let next := (interpreter.evalForm e.toValue).sessionAfter session
      -- the form has been evaluated, and not only logged
      next.heap = run.heapAfter →
        ∀ last, interpreter.Reaches next last → ∀ before, run.Meets before →
          before.Extends last.heap ∧ before.StaysBound last.heap := by
  obtain ⟨sound', growth⟩ := reached.grown sound root
  have lt := Nat.lt_of_lt_of_le root growth.frames_le
  have permits (code : Value) {env : FrameId} (lt : env < session.heap.frames.size) :
      Territory.everything.Permits ⟨session.depthLimit, .eval code env, session.heap⟩ :=
    Territory.permits_everything sound' session.depthLimit rfl lt
  refine ⟨⟨sound', sound'.walksEnd, growth, growth.staysBound sound⟩,
    fun source => ⟨reached.eval source, reached.evalPrelude source⟩, ?_, ?_⟩
  · intro code env lt run involves
    have permits := (Territory.permits_of_involves (permits code lt) involves).1
    refine ⟨fun heap meets => ?_, fun before after meets => ?_⟩
    · have sound := (Territory.extends_of_meets permits meets).1
      exact ⟨sound, sound.walksEnd⟩
    · have growth := Territory.extends_of_meetsInOrder permits meets
      exact ⟨growth, growth.staysBound (Territory.extends_of_meets permits meets.left).1⟩
  · intro e run next evaluated last reached' before meets
    obtain ⟨sound, _, growth⟩ := Territory.extends_of_meets (permits e.toValue lt) meets
    have kept := Territory.kept_heapAfter (permits e.toValue lt)
    rw [← evaluated] at growth kept
    have lt := Nat.lt_of_lt_of_le lt kept.growth.frames_le
    have later := growth.trans (reached'.grown kept.sound lt).2
    exact ⟨later, later.staysBound sound⟩

/-- A `letrec` that fails at its second binding leaves its frame behind, in a session that goes on. -/
theorem session_grows_letrec :
    let interpreter : Interpreter := ⟨0⟩
    let start : Session := { Session.start with heap := .standard }
    let e : Expr := .list [.atom "letrec",
      .list [.list [.atom "x", .atom "1"], .list [.atom "y", .atom "z"]], .atom "x"]
    let session := (interpreter.evalForm e.toValue).sessionAfter start
    start.heap.Sound ∧ interpreter.root < start.heap.frames.size ∧
      interpreter.Reaches start session ∧ session.heap.names 1 = ["x", "y"] ∧
      session.heap.WalksEnd ∧ start.heap.StaysBound session.heap := by
  intro interpreter start e session
  have sound : start.heap.Sound := Heap.sound_standard
  have root : interpreter.root < start.heap.frames.size := Nat.zero_lt_one
  have reached : interpreter.Reaches start session := .form e .start
  obtain ⟨⟨_, walks, _, bound⟩, _⟩ := session_grows sound root reached
  exact ⟨sound, root, reached, by decide +kernel, walks, bound⟩

end ScopedLisp
