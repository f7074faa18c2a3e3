import ScopedLisp.Proofs.CommandLine.Outcome
import ScopedLisp.Proofs.Reading.Lines
import ScopedLisp.Proofs.Session.Forms

/-!
# ScopedLisp.Proofs.CommandLine.Agreement

The interactive loop and the run of a file agree.  Where every form of a text can be evaluated and its
value shown, the loop takes the text line by line and evaluates the same forms as the run of
a file with that text, each of them once, in the same order and in the same sessions.
It shows all the values, and the run of the file shows the last one.

A file is read with every line end as a line feed, so its text never has a carriage return; the loop takes
its lines as they are.  In a comment that makes a difference (`modes_differ_carriage_return`).
-/

namespace ScopedLisp

/-- Where there is no carriage return, every line end is a line feed already. -/
theorem Text.unifyNewlines_of_not_mem {cs : List Char} (h : '\r' ∉ cs) : unifyNewlines cs = cs := by
  fun_induction unifyNewlines cs <;> simp_all

namespace CommandLine

/-! ## What is printed -/

/-- A line of the log, or a complaint about the arguments. -/
def Output.isLog : Output → Bool
  | .log _ => true
  | _ => false

/-- All that is written but the log. -/
def Console.printed (console : Console) : List Output :=
  console.output.toList.filter fun output => !output.isLog

theorem Console.printed_wrote (console : Console) {output : Output} (h : output.isLog = false) :
    (console.wrote output).printed = console.printed ++ [output] := by
  simp [printed, wrote, h]

namespace Activity

variable {α : Type} {run : Step α} {console : Console}

/-- A step that succeeds: what it logs is written, and nothing is printed. -/
theorem step_of_ok {a : α} {after : Session} (h : run console.session = .ok a after) :
    ∃ mid, step run console = .ok a mid ∧ mid.session = after.unlogged ∧
      mid.printed = console.printed := by
  obtain ⟨session, output⟩ := console
  simp only [step, h]
  refine ⟨_, rfl, rfl, ?_⟩
  simp [Console.printed, Output.isLog, List.filter_append]

theorem attempt_of_ok {a : α} {mid : Console} (h : step run console = .ok a mid) :
    attempt run console = .ok (.ok a) mid := by
  simp only [attempt, h]

theorem outValue_of_ok {value : Value} {text : String} {mid : Console}
    (h : step (Step.display value) console = .ok text mid) :
    outValue value console = .ok () (mid.wrote (.out (text ++ "\n"))) :=
  bind_of_ok h _

end Activity

/-! ## The loop -/

namespace Repl

/-- The forms of a text are evaluated one by one, each in the session of the console, and their values
are printed. -/
inductive Evaluates (interpreter : Interpreter) : List Expr → Console → List Shown → Console → Prop where
  | done {console : Console} : Evaluates interpreter [] console [] console
  | form {e : Expr} {es : List Expr} {value : Value} {text : String} {history : List Shown}
      {console mid shown after : Console} :
      Activity.step (interpreter.evalForm e.toValue) console = .ok value mid →
      Activity.step (Step.display value) mid = .ok text shown →
      Evaluates interpreter es (shown.wrote (.out (text ++ "\n"))) history after →
      Evaluates interpreter (e :: es) console (⟨e, console.session, text⟩ :: history) after

/-- Line after line is taken, and each is answered: the next one is asked for, or what has been read is
evaluated. -/
inductive Exchange (interpreter : Interpreter) :
    String → List String → Console → List (Option (List Shown)) → Console → Prop where
  | done {waiting : String} {console : Console} : Exchange interpreter waiting [] console [] console
  | waits {waiting line : String} {lines : List String} {error : ParseError} {console after : Console}
      {turns : List (Option (List Shown))} :
      readAll (waiting ++ line) = .error error → error.incomplete = true →
      Exchange interpreter (waiting ++ line) lines (console.wrote (.out continuation)) turns after →
      Exchange interpreter waiting (line :: lines) console (none :: turns) after
  | answers {waiting line : String} {lines : List String} {es : List Expr} {console mid after : Console}
      {history : List Shown} {turns : List (Option (List Shown))} :
      readAll (waiting ++ line) = .ok es → Evaluates interpreter es console history mid →
      Exchange interpreter "" lines (mid.wrote (.out prompt)) turns after →
      Exchange interpreter waiting (line :: lines) console (some history :: turns) after

/-- What is printed for forms. -/
def valueLines (history : List Shown) : List Output :=
  history.map fun shown => .out (shown.text ++ "\n")

/-- What is printed in answer to lines. -/
def transcript (turns : List (Option (List Shown))) : List Output :=
  turns.flatMap fun
    | none => [.out continuation]
    | some history => valueLines history ++ [.out prompt]

variable {interpreter : Interpreter} {console : Console} {s last : Session} {history : List Shown}

/-- Forms that can be shown are evaluated by the loop. -/
theorem evaluates_of_shows (row : interpreter.Shows s history last) (start : console.session = s) :
    ∃ after, Evaluates interpreter (history.map Shown.form) console history after ∧
      evalForms interpreter (history.map Shown.form) console = .ok () after ∧
      after.session = last ∧ after.printed = console.printed ++ valueLines history := by
  induction row generalizing console with
  | done => exact ⟨console, .done, rfl, start, by simp [valueLines]⟩
  | @form e value text session mid last history evaluated displayed _ ih =>
      subst start
      obtain ⟨console₁, stepped, session₁, printed₁⟩ := Activity.step_of_ok evaluated
      have again := Step.display_of_unlogged mid.unlogged_unlogged.symm displayed
      rw [← session₁] at again
      obtain ⟨console₂, shown, session₂, printed₂⟩ := Activity.step_of_ok again
      have session₃ : (console₂.wrote (.out (text ++ "\n"))).session = mid.unlogged := by
        rw [Console.wrote, session₂, session₁, Session.unlogged_unlogged]
      obtain ⟨after, evaluates, ran, session', printed'⟩ := ih session₃
      refine ⟨after, .form stepped shown evaluates, ?_, session', ?_⟩
      · rw [List.map_cons, evalForms, bind_of_ok (Activity.attempt_of_ok stepped)]
        exact (bind_of_ok (Activity.outValue_of_ok shown) _).trans ran
      · rw [printed', Console.printed_wrote _ rfl, printed₂, printed₁]
        simp [valueLines]

/-- Lines are taken in turns as they are read, and the forms that can be shown are evaluated. -/
theorem exchange_of_turns {waiting : String} {lines : List String} {turns : List (Option (List Expr))}
    (taken : Turns waiting lines turns) (row : interpreter.Shows s history last)
    (forms : turns.reduceOption.flatten = history.map Shown.form) (start : console.session = s) :
    ∃ answered repl after, Exchange interpreter waiting lines console answered after ∧
      answered.reduceOption.flatten = history ∧
      feedAll ⟨interpreter, waiting⟩ lines console = .ok repl after ∧
      after.session = last ∧ after.printed = console.printed ++ transcript answered := by
  induction taken generalizing console history s with
  | @done waiting =>
      obtain rfl : history = [] := List.map_eq_nil_iff.mp forms.symm
      cases row
      exact ⟨[], ⟨interpreter, waiting⟩, console, .done, rfl, rfl, start, by simp [transcript]⟩
  | @waits waiting line lines turns error failed incomplete _ ih =>
      have next : (console.wrote (.out continuation)).session = s := start
      obtain ⟨answered, repl, after, exchange, whole, fed, session', printed'⟩ := ih row forms next
      refine ⟨none :: answered, repl, after, .waits failed incomplete exchange, whole, ?_, session', ?_⟩
      · have asked : feed ⟨interpreter, waiting⟩ line console =
            .ok ⟨interpreter, waiting ++ line⟩ (console.wrote (.out continuation)) := by
          simp only [feed, failed, if_pos incomplete]
          rfl
        rw [feedAll, bind_of_ok asked]
        exact fed
      · rw [printed', Console.printed_wrote _ rfl]
        simp [transcript]
  | @reads waiting line lines turns es read _ ih =>
      obtain ⟨first, rest, rfl, rfl, more⟩ := List.map_eq_append_iff.mp forms.symm
      obtain ⟨mid, row, others⟩ := row.of_append
      obtain ⟨console₁, evaluates, ran, session₁, printed₁⟩ := evaluates_of_shows row start
      have next : (console₁.wrote (.out prompt)).session = mid := session₁
      obtain ⟨answered, repl, after, exchange, whole, fed, session', printed'⟩ :=
        ih others more.symm next
      refine ⟨some first :: answered, repl, after, .answers read evaluates exchange, ?_, ?_, session', ?_⟩
      · exact congrArg (first ++ ·) whole
      · have answer : feed ⟨interpreter, waiting⟩ line console =
            .ok ⟨interpreter, ""⟩ (console₁.wrote (.out prompt)) := by
          simp only [feed, read]
          exact bind_of_ok ran _
        rw [feedAll, bind_of_ok answer]
        exact fed
      · rw [printed', Console.printed_wrote _ rfl, printed₁]
        simp [transcript]

/-- The loop over lines evaluates forms, each once and in its session, prints all their values between its
prompts and nothing else, and leaves a session. -/
def Plays (interpreter : Interpreter) (lines : List String) (console : Console) (history : List Shown)
    (last : Session) : Prop :=
  ∃ turns after, Exchange interpreter "" lines (console.wrote (.out prompt)) turns after ∧
    turns.reduceOption.flatten = history ∧
    run interpreter lines console = .ok () (after.wrote (.out "\n")) ∧
    (after.wrote (.out "\n")).session = last ∧
    (after.wrote (.out "\n")).printed =
      console.printed ++ .out prompt :: transcript turns ++ [.out "\n"]

theorem plays_of_shows {source : String} (read : readAll source = .ok (history.map Shown.form))
    (row : interpreter.Shows console.session history last) :
    Plays interpreter (Text.linesOf source) console history last := by
  have whole : readAll ("" ++ String.join (Text.linesOf source)) = .ok (history.map Shown.form) := by
    rw [Text.join_linesOf, String.empty_append, read]
  obtain ⟨turns, taken, forms⟩ := exists_turns (Text.lines_linesOf source) (Or.inl rfl) whole
  have asked : (console.wrote (.out prompt)).session = console.session := rfl
  obtain ⟨answered, repl, after, exchange, flatten, fed, session', printed'⟩ :=
    exchange_of_turns taken row forms asked
  refine ⟨answered, after, exchange, flatten, ?_, session', ?_⟩
  · have started : start interpreter console = .ok ⟨interpreter, ""⟩ (console.wrote (.out prompt)) := rfl
    rw [run, bind_of_ok started, bind_of_ok fed]
    rfl
  · rw [Console.printed_wrote _ rfl, printed', Console.printed_wrote _ rfl]
    simp

end Repl

/-! ## Files -/

/-- The run of a file evaluates forms, each once and in its session, prints the last value and nothing
else, and leaves a session. -/
def FilePlays (readFile : String → Except FileFailure ByteArray) (interpreter : Interpreter)
    (program source : String) (console : Console) (history : List Shown) (last : Session) : Prop :=
  ∃ value ended after, interpreter.Runs (lex source) .nil console.session
      (history.map fun shown => (shown.form, shown.state)) value ended ∧
    runFile readFile interpreter program console = .ok 0 after ∧
    after.session = last ∧
    ∃ shown ∈ history.getLast?, after.printed = console.printed ++ [.out (shown.text ++ "\n")]

theorem filePlays_of_shows {interpreter : Interpreter} {console : Console} {history : List Shown}
    {last : Session} {source program : String} {readFile : String → Except FileFailure ByteArray}
    {bytes : ByteArray} (limit : 0 < console.session.depthLimit)
    (unlogged : console.session.unlogged = console.session)
    (row : interpreter.Shows console.session history last) (nonempty : history ≠ [])
    (read : readAll source = .ok (history.map Shown.form))
    (path : (plainPath program).toList.contains '\x00' = false)
    (found : readFile (plainPath program) = .ok bytes) (decoded : decodeSource bytes = .ok source) :
    FilePlays readFile interpreter program source console history last := by
  obtain ⟨log, running⟩ := Step.record_running_ok limit (plainPath program)
  obtain ⟨console₁, logged, session₁, printed₁⟩ := Activity.step_of_ok running
  rw [Session.unlogged_withLog, unlogged] at session₁
  obtain ⟨final, stream⟩ := Interpreter.readRest_of_readAll read
  obtain ⟨value, ended, runs, sameEnd, -, lastShown⟩ := row.runs unlogged stream .nil unlogged
  have evaluated : interpreter.eval source console₁.session = .ok value ended := by
    rw [session₁]
    exact runs.evalStream_eq
  obtain ⟨console₂, stepped, session₂, printed₂⟩ := Activity.step_of_ok evaluated
  have session₂ : console₂.session = last := by
    rw [session₂, sameEnd, row.unlogged unlogged]
  have mem : history.getLast nonempty ∈ history.getLast? := List.getLast?_eq_some_getLast nonempty
  have displayed := lastShown _ mem
  rw [← session₂] at displayed
  obtain ⟨console₃, shown, session₃, printed₃⟩ := Activity.step_of_ok displayed
  refine ⟨value, ended, console₃.wrote (.out ((history.getLast nonempty).text ++ "\n")), runs, ?_, ?_,
    _, mem, ?_⟩
  · unfold runFile
    have proper := Bool.eq_false_iff.mp path
    simp only [bind_of_ok logged, if_neg proper, found, decoded,
      bind_of_ok (Activity.attempt_of_ok stepped)]
    exact bind_of_ok (Activity.outValue_of_ok shown) _
  · rw [Console.wrote, session₃, session₂, row.unlogged unlogged]
  · rw [Console.printed_wrote _ rfl, printed₃, printed₂, printed₁]

/-- What is read from a file that a text has been written to: the text with line feeds only. -/
theorem decodeSource_toUTF8 (source : String) :
    decodeSource source.toUTF8 = .ok (String.ofList (Text.unifyNewlines source.toList)) := by
  have decoded : String.fromUTF8? source.toUTF8 = some source := dif_pos source.isValidUTF8
  rw [decodeSource, decoded]

/-- The log of a session that has been set up is written. -/
theorem unlogged_of_setUp {settings : Settings} {level : Option LogLevel} {interpreter : Interpreter}
    {console : Console} (made : setUp settings level .start = .ok interpreter console) :
    console.session.unlogged = console.session := by
  obtain ⟨_, mid, -, created⟩ := Activity.bind_eq_ok made
  obtain ⟨session, -, eq⟩ := Activity.step_eq_ok created
  rw [eq]
  rfl

/-- **The loop and the run of a file agree**.  Let a text with at least one form be such that every form can
be evaluated and its value shown, one after the other, by an interpreter that has just been set up.
Then the loop over the lines of the text and the run of any file that is read as this text evaluate
these forms in the same sessions, and leave the same session.  The loop prints all the values between
its prompts, the run of the file prints the last one; neither prints anything else, a report least
of all.  A text without carriage returns is read from a file that holds it. -/
theorem modes_agree {settings : Settings} {level : Option LogLevel} {interpreter : Interpreter}
    {console : Console} (made : setUp settings level .start = .ok interpreter console)
    {source : String} {es : List Expr} (read : readAll source = .ok es) (nonempty : es ≠ [])
    {history : List Shown} {last : Session} (forms : history.map Shown.form = es)
    (row : interpreter.Shows console.session history last) :
    Repl.Plays interpreter (Text.linesOf source) console history last ∧
    (∀ readFile program bytes, (plainPath program).toList.contains '\x00' = false →
      readFile (plainPath program) = .ok bytes → decodeSource bytes = .ok source →
      FilePlays readFile interpreter program source console history last) ∧
    ('\r' ∉ source.toList → decodeSource source.toUTF8 = .ok source) := by
  subst forms
  refine ⟨Repl.plays_of_shows read row, ?_, ?_⟩
  · intro readFile program bytes path found decoded
    exact filePlays_of_shows (setUp_begins made).2 (unlogged_of_setUp made) row
      (mt List.map_eq_nil_iff.mpr nonempty) read path found decoded
  · intro plain
    rw [decodeSource_toUTF8, Text.unifyNewlines_of_not_mem plain, String.ofList_toList]

set_option maxRecDepth 8000 in
/-- Two forms, the second of which takes two lines. -/
theorem modes_agree_two_lines :
    let source := "(define x #t) (if x\n#f x)\n"
    let definition : Expr := .list [.atom "define", .atom "x", .atom "#t"]
    let choose : Expr := .list [.atom "if", .atom "x", .atom "#f", .atom "x"]
    ∃ interpreter console mid last,
      setUp .none none .start = .ok interpreter console ∧ readAll source = .ok [definition, choose] ∧
      let history : List Shown := [⟨definition, console.session, "nil"⟩, ⟨choose, mid, "#f"⟩]
      interpreter.Shows console.session history last ∧
      Repl.Plays interpreter (Text.linesOf source) console history last ∧
      FilePlays (fun _ => .ok source.toUTF8) interpreter "p.scm" source console history last := by
  intro source definition choose
  obtain ⟨interpreter, console, v, mid, w, last, made, defined, displayed, chosen, displayed'⟩ :
      ∃ interpreter console v mid w last, setUp .none none .start = .ok interpreter console ∧
        interpreter.evalForm definition.toValue console.session = .ok v mid ∧
        Step.display v mid = .ok "nil" mid ∧
        interpreter.evalForm choose.toValue mid.unlogged = .ok w last ∧
        Step.display w last = .ok "#f" last :=
    ⟨_, _, _, _, _, _, rfl, rfl, rfl, rfl, rfl⟩
  have read : readAll "(define x #t) (if x\n#f x)\n" = .ok [definition, choose] := by cbv
  have row : interpreter.Shows console.session
      [⟨definition, console.session, "nil"⟩, ⟨choose, mid.unlogged, "#f"⟩] last.unlogged :=
    .form defined displayed (.form chosen displayed' .done)
  obtain ⟨loop, file, plain⟩ := modes_agree made read (List.cons_ne_nil _ _) rfl row
  have path : (plainPath "p.scm").toList.contains '\x00' = false := by decide +kernel
  have decoded := plain (by decide)
  exact ⟨interpreter, console, mid.unlogged, last.unlogged, made, read, row, loop,
    file _ "p.scm" _ path rfl decoded⟩

/-- In a comment, a carriage return: the loop goes on with the comment, but the run of a file does not,
since it reads a line end there. -/
theorem modes_differ_carriage_return :
    let source := "#t ;a\r#f\n"
    ∃ interpreter console after after',
      setUp .none none .start = .ok interpreter console ∧
      readAll source = .ok [.atom "#t"] ∧
      interpreter.Shows console.session [⟨.atom "#t", console.session, "#t"⟩] console.session ∧
      Repl.run interpreter (Text.linesOf source) console = .ok () after ∧
      after.printed = console.printed ++
        [.out "lambic> ", .out "#t\n", .out "lambic> ", .out "\n"] ∧
      runFile (fun _ => .ok source.toUTF8) interpreter "p.scm" console = .ok 0 after' ∧
      after'.printed = console.printed ++ [.out "#f\n"] := by
  intro source
  obtain ⟨interpreter, console, made, evaluated, evaluated', displayed, displayed'⟩ :
      ∃ interpreter console, setUp .none none .start = .ok interpreter console ∧
        interpreter.evalForm (.atom "#t") console.session = .ok (.bool true) console.session ∧
        interpreter.evalForm (.atom "#f") console.session = .ok (.bool false) console.session ∧
        Step.display (.bool true) console.session = .ok "#t" console.session ∧
        Step.display (.bool false) console.session = .ok "#f" console.session :=
    ⟨_, _, rfl, rfl, rfl, rfl, rfl⟩
  have unlogged := unlogged_of_setUp made
  have read : readAll "#t ;a\r#f\n" = .ok [.atom "#t"] := by cbv
  have done : interpreter.Shows console.session.unlogged [] console.session := by
    rw [unlogged]
    exact .done
  have first : interpreter.Shows console.session [⟨.atom "#t", console.session, "#t"⟩]
      console.session := .form evaluated displayed done
  have second : interpreter.Shows console.session
      [⟨.atom "#t", console.session, "#t"⟩, ⟨.atom "#f", console.session, "#f"⟩] console.session := by
    refine .form evaluated displayed ?_
    rw [unlogged]
    exact .form evaluated' displayed' done
  have lines : Text.linesOf source = [source] := by decide
  obtain ⟨turns, after, exchange, forms, ran, -, printed⟩ := Repl.plays_of_shows read first
  have decoded : decodeSource source.toUTF8 = .ok "#t ;a\n#f\n" :=
    (decodeSource_toUTF8 source).trans (congrArg Except.ok (by decide))
  have readBoth : readAll "#t ;a\n#f\n" = .ok [.atom "#t", .atom "#f"] := by cbv
  have path : (plainPath "p.scm").toList.contains '\x00' = false := by decide +kernel
  let readFile : String → Except FileFailure ByteArray := fun _ => .ok source.toUTF8
  have found : readFile (plainPath "p.scm") = .ok source.toUTF8 := rfl
  obtain ⟨_, _, after', -, ran', -, shown, mem, printed'⟩ :=
    filePlays_of_shows (setUp_begins made).2 unlogged second (by simp) readBoth path found decoded
  refine ⟨interpreter, console, _, after', made, read, first, ran, ?_, ran', ?_⟩
  · rw [lines] at exchange
    rw [printed]
    cases exchange with
    | waits _ _ more =>
        cases more
        cases forms
    | answers _ _ more =>
        cases more
        obtain rfl := (List.append_nil _).symm.trans forms
        exact List.append_assoc ..
  · cases mem
    exact printed'

end CommandLine

end ScopedLisp
