import ScopedLisp.Proofs.Session.Standard

/-!
# ScopedLisp.Proofs.Session.Values

The values of a standard session.  Whatever is returned, passed as an argument or defined while a
source text is evaluated is native: a number, a boolean, `nil`, a closure or a primitive.  And
after every step, failed ones included, neither the root frame nor a returned value leads to a name
that waits for its value.
-/

namespace ScopedLisp

variable {interpreter : Interpreter} {start session : Session}

/-! ## Runs -/

namespace Territory

variable {t : Territory} {run : Call.Run} {v : Value} {after : Heap}

/-- A permitted run returns a value of the territory. -/
theorem value_of_result (permits : t.Permits run) (h : run.result = .ok v after) :
    t.Kept run.heap after ∧ t.value v ∧ after.Knows v := by
  have ends := permits.ends
  rw [h] at ends
  exact ⟨ends.1, ends.2.2⟩

/-- A permitted definition leaves a value of the territory under its name. -/
theorem value_of_definition (permits : t.Permits run) {operands : List Value} {env : FrameId}
    (hcall : run.call = .form .defineForm operands env) (h : run.result = .ok v after) :
    ∃ definition given, Shape.definition operands = .ok definition ∧
      after.get? env definition.name = some given ∧ t.value given ∧ after.Knows given := by
  obtain ⟨levels, c, heap⟩ := run
  cases hcall
  cases levels with
  | zero => cases h
  | succ levels =>
      obtain ⟨code, henv⟩ := permits.admits
      have obeys := Discipline.obeys_runDefine ((t.discipline heap).perform levels) henv levels code
      have ends := obeys permits.sound
      have h : Form.runDefine levels (Call.perform levels) operands env heap = .ok v after := h
      rw [h] at ends
      obtain ⟨_, _, _, definition, given, shape, hget, hgiven⟩ := ends
      exact ⟨definition, given, shape, hget, hgiven⟩

end Territory

/-! ## Sessions -/

/-- Every slot holds a native value, or waits for its value. -/
def Heap.NativeSlots (heap : Heap) : Prop :=
  ∀ f name v, heap.get? f name = some v → v = .unassigned ∨ heap.Native v

/-- A heap in which the language is not left has native slots. -/
theorem Heap.nativeSlots {heap : Heap} (kept : Territory.language.Kept .standard heap) :
    heap.NativeSlots := by
  intro f name v hget
  exact (kept.closed.slot trivial hget).imp_right fun language =>
    native kept.growth language (kept.sound.knows hget)

namespace Interpreter

/-- What a form returns leads to assigned slots only, together with the root. -/
theorem Reaches.assigned_evalForm (reached : interpreter.Reaches start session)
    (begins : interpreter.Begins start) {e : Expr} {value : Value} {after : Session}
    (h : interpreter.evalForm e.toValue session = .ok value after) :
    (after.heap.Assigned fun f => f = interpreter.root ∨ after.heap.envOf? value = some f) ∧
    after.heap.Native value := by
  have tidy := reached.tidy begins
  have ends := evalForm_ends interpreter e.toValue session
  rw [h] at ends
  cases ends with
  | @value log _ _ hevaluate =>
      simp only [Step.evaluate] at hevaluate
      cases hp : Call.perform session.depthLimit (.eval e.toValue interpreter.root) session.heap with
      | error failure heap => cases failure <;> rw [hp] at hevaluate <;> cases hevaluate
      | ok v heap =>
          rw [hp] at hevaluate
          cases hevaluate
          have permits := reached.permits_language begins e tidy.lt
          obtain ⟨kept, language, known⟩ := Territory.value_of_result permits hp
          have growth := (reached.kept_language begins).growth.trans kept.growth
          rw [begins.heap] at growth
          have assigned := (assigned_value tidy.sound tidy.lt tidy.assigned hp).1
          exact ⟨assigned, Heap.native growth language known⟩

end Interpreter

/-- **Closed values, no leak**: in a session that begins with a standard root frame and evaluates
source texts,

* every call inside an evaluation returns native values, is applied to native values and, if it is a
  definition, leaves a native value under its name; in its heap, before and after, every slot holds a
  native value or waits for its value;
* after every step the root frame leads to no slot that waits for its value, and neither does the
  value that a form or a text returns, which is native. -/
theorem session_values (begins : interpreter.Begins start)
    (reached : interpreter.Reaches start session) :
    (∀ e : Expr, ∀ env < session.heap.frames.size, ∀ run : Call.Run,
      Call.Run.Involves ⟨session.depthLimit, .eval e.toValue env, session.heap⟩ run →
      (∀ v after, run.result = .ok v after → after.Native v) ∧
      (∀ procedure args caller, run.call = .apply procedure args caller →
        run.heap.Native procedure ∧ ∀ arg ∈ args, run.heap.Native arg) ∧
      (∀ operands inside, run.call = .form .defineForm operands inside →
        ∀ v after, run.result = .ok v after → ∃ definition given,
          Shape.definition operands = .ok definition ∧
          after.get? inside definition.name = some given ∧ after.Native given) ∧
      run.heap.NativeSlots ∧ run.heapAfter.NativeSlots) ∧
    (∀ f, session.heap.Reachable (· = interpreter.root) f →
      ∀ name, session.heap.get? f name ≠ some .unassigned) ∧
    (∀ (e : Expr) value after, interpreter.evalForm e.toValue session = .ok value after →
      after.heap.Native value ∧
      ∀ f, after.heap.Reachable (fun f => f = interpreter.root ∨ after.heap.envOf? value = some f) f →
        ∀ name, after.heap.get? f name ≠ some .unassigned) ∧
    ∀ source, interpreter.Reaches start ((interpreter.eval source).sessionAfter session) ∧
      interpreter.Reaches start ((interpreter.evalPrelude source).sessionAfter session) ∧
      ∀ value after, interpreter.eval source session = .ok value after →
        after.heap.Native value ∧
        ∀ f, after.heap.Reachable (fun f => f = interpreter.root ∨ after.heap.envOf? value = some f) f →
          ∀ name, after.heap.get? f name ≠ some .unassigned := by
  have clear : ∀ {heap : Heap} {seeds : FrameId → Prop}, heap.Assigned seeds →
      ∀ f, heap.Reachable seeds f → ∀ name, heap.get? f name ≠ some .unassigned :=
    fun assigned f reachable name h => (assigned.slot reachable h).1 rfl
  have tidy := reached.tidy begins
  refine ⟨?_, clear tidy.assigned, fun e value after h => ?_, fun source => ?_⟩
  · intro e env lt run involves
    obtain ⟨permits, growth⟩ :=
      Territory.permits_of_involves (reached.permits_language begins e lt) involves
    have growth := (reached.kept_language begins).growth.trans growth
    rw [begins.heap] at growth
    have kept := Territory.kept_heapAfter permits
    refine ⟨fun v after h => ?_, fun procedure args caller hcall => ?_,
      fun operands inside hcall v after h => ?_,
      Heap.nativeSlots ⟨permits.sound.sound, permits.sound.closed, growth⟩,
      Heap.nativeSlots ⟨kept.sound, kept.closed, growth.trans kept.growth⟩⟩
    · obtain ⟨kept, language, known⟩ := Territory.value_of_result permits h
      exact Heap.native (growth.trans kept.growth) language known
    · have admits := permits.admits
      rw [hcall] at admits
      obtain ⟨⟨language, known⟩, hargs, _⟩ := admits
      exact ⟨Heap.native growth language known,
        fun arg mem => Heap.native growth (hargs arg mem).1 (hargs arg mem).2⟩
    · obtain ⟨kept, _, _⟩ := Territory.value_of_result permits h
      obtain ⟨definition, given, shape, hget, language, known⟩ :=
        Territory.value_of_definition permits hcall h
      exact ⟨definition, given, shape, hget, Heap.native (growth.trans kept.growth) language known⟩
  · obtain ⟨assigned, native⟩ := reached.assigned_evalForm begins h
    exact ⟨native, clear assigned⟩
  · refine ⟨reached.eval source, reached.evalPrelude source, fun value after h => ?_⟩
    rcases (reached.evalStream (lex source) .nil).2 value after h with
      ⟨rfl, rfl⟩ | ⟨mid, e, reached', h⟩
    · refine ⟨.nil, clear (tidy.assigned.mono ?_)⟩
      rintro f (rfl | henv)
      · rfl
      · cases henv
    · obtain ⟨assigned, native⟩ := reached'.assigned_evalForm begins h
      exact ⟨native, clear assigned⟩

set_option maxRecDepth 1000 in
/-- A `letrec` fails whose first value is a closure of its frame: a name of that frame waits for its
value ever after, but the frame cannot be reached any more. -/
theorem session_values_letrec :
    let interpreter : Interpreter := ⟨0⟩
    let start : Session := { Session.start with heap := .standard }
    let e : Expr := .list [.atom "letrec",
      .list [.list [.atom "f", .list [.atom "lambda", .list [], .atom "g"]],
        .list [.atom "g", .list [.atom "f"]]], .atom "f"]
    let session := (interpreter.evalForm e.toValue).sessionAfter start
    interpreter.Begins start ∧ interpreter.Reaches start session ∧
      session.heap.get? 1 "g" = some .unassigned ∧
      ¬session.heap.Reachable (· = interpreter.root) 1 := by
  intro interpreter start e session
  have begins : interpreter.Begins start := ⟨rfl, rfl⟩
  have reached : interpreter.Reaches start session := .form e .start
  have waiting : session.heap.get? 1 "g" = some .unassigned := by rfl
  obtain ⟨_, assigned, _⟩ := session_values begins reached
  exact ⟨begins, reached, waiting, fun reachable => assigned 1 reachable "g" waiting⟩

end ScopedLisp
