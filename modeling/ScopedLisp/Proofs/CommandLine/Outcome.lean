import ScopedLisp.Proofs.CommandLine.SetUp
import ScopedLisp.Proofs.Reading.RoundTrip
import ScopedLisp.Proofs.Session.Endings

/-!
# ScopedLisp.Proofs.CommandLine.Outcome

How the interactive loop and the run of a file end.  `Dialogue` says what the loop writes as long as it
goes on: the value of each form, and in place of a value the report of an error of reading or
evaluating, after which the next line is taken.  `FileRun` says the same of a file.

Neither ends in any other way but by one of the faults in `Fault.OfProgram`.  They come from errors that
are none of the language: an integer of too many digits that is read, applied or to be written; and,
where everything is logged, a form nested too deeply to be shown in the log.
-/

namespace ScopedLisp.CommandLine

/-! ## What is written -/

/-- A console on which one more piece is written. -/
def Console.wrote (console : Console) (output : Output) : Console :=
  { console with output := console.output.push output }

/-- What the loop answers to the forms of a text: the value of each, up to the first that fails, and
the report of its error. -/
inductive Answers (interpreter : Interpreter) : List Expr → Console → Console → Prop where
  | none {console : Console} : Answers interpreter [] console console
  | value {e : Expr} {es : List Expr} {value : Value} {text : String} {console mid after : Console} :
      Activity.step (interpreter.evalForm e.toValue) console = .ok value mid →
      value.display? mid.session.heap = .ok text →
      Answers interpreter es (mid.wrote (.out (text ++ "\n"))) after →
      Answers interpreter (e :: es) console after
  | report {e : Expr} {es : List Expr} {error : Error} {console mid : Console} :
      Activity.step (interpreter.evalForm e.toValue) console = .error (.error error) mid →
      error.isOfLanguage = true →
      Answers interpreter (e :: es) console (mid.wrote (.err (error.report ++ "\n")))

/-- One line, behind the text that waits to be completed: what waits after it, and what is written. -/
inductive Turn (interpreter : Interpreter) (waiting line : String) (console : Console) :
    String → Console → Prop where
  /-- More lines are needed. -/
  | waits {error : ParseError} : readAll (waiting ++ line) = .error error → error.incomplete = true →
      Turn interpreter waiting line console (waiting ++ line)
        (console.wrote (.out Repl.continuation))
  /-- The text cannot be read. -/
  | refused {error : ParseError} : readAll (waiting ++ line) = .error error →
      error.incomplete = false → (Error.reading error).isOfLanguage = true →
      Turn interpreter waiting line console ""
        ((console.wrote (.err ((Error.reading error).report ++ "\n"))).wrote (.out Repl.prompt))
  | answered {es : List Expr} {mid : Console} : readAll (waiting ++ line) = .ok es →
      Answers interpreter es console mid →
      Turn interpreter waiting line console "" (mid.wrote (.out Repl.prompt))

/-- Line after line, to the last one. -/
inductive Dialogue (interpreter : Interpreter) : String → List String → Console → Console → Prop where
  | finished {waiting : String} {console : Console} : Dialogue interpreter waiting [] console console
  | line {waiting waiting' line : String} {lines : List String} {console mid after : Console} :
      Turn interpreter waiting line console waiting' mid →
      Dialogue interpreter waiting' lines mid after →
      Dialogue interpreter waiting (line :: lines) console after

/-- The run of a file: the status that it returns, and what is written. -/
inductive FileRun (readFile : String → Except FileFailure ByteArray) (interpreter : Interpreter)
    (path : String) (console : Console) : Nat → Console → Prop where
  | value {bytes : ByteArray} {source text : String} {value : Value} {mid : Console} :
      readFile path = .ok bytes → decodeSource bytes = .ok source →
      Activity.step (interpreter.eval source) console = .ok value mid →
      value.display? mid.session.heap = .ok text →
      FileRun readFile interpreter path console 0 (mid.wrote (.out (text ++ "\n")))
  | report {bytes : ByteArray} {source : String} {error : Error} {mid : Console} :
      readFile path = .ok bytes → decodeSource bytes = .ok source →
      Activity.step (interpreter.eval source) console = .error (.error error) mid →
      error.isOfLanguage = true →
      FileRun readFile interpreter path console 1 (mid.wrote (.err (error.report ++ "\n")))
  | unreadable {failure : FileFailure} : readFile path = .error failure →
      FileRun readFile interpreter path console 1
        (console.wrote (.err ("lambic: cannot read " ++ path ++ ": " ++ failure.text ++ "\n")))

/-- The faults that come from the program: its integers of too many digits and, where everything is
logged, its deeply nested forms. -/
def Fault.OfProgram (threshold : LogLevel) (fault : Fault) : Prop :=
  ∃ cause : EvalError, fault = .error (.evaluation cause) ∧ cause.Stops threshold

/-- The faults of the run of a file: its name, its content or its program is the cause. -/
inductive Fault.OfFile (readFile : String → Except FileFailure ByteArray) (path : String)
    (threshold : LogLevel) : Fault → Prop where
  | null : path.toList.contains '\x00' = true → OfFile readFile path threshold .nullInPath
  | undecodable {bytes : ByteArray} {fault : Fault} : readFile path = .ok bytes →
      decodeSource bytes = .error fault → OfFile readFile path threshold fault
  | program {bytes : ByteArray} {source : String} {fault : Fault} : readFile path = .ok bytes →
      decodeSource bytes = .ok source → fault.OfProgram threshold → OfFile readFile path threshold fault

/-- A console whose session is ready and whose log has been written. -/
structure Console.Settled (interpreter : Interpreter) (threshold : LogLevel) (console : Console) :
    Prop where
  ready : interpreter.Ready threshold console.session
  log : console.session.log = #[]

variable {interpreter : Interpreter} {threshold : LogLevel} {console : Console}

theorem Console.Settled.wrote (settled : console.Settled interpreter threshold) (output : Output) :
    (console.wrote output).Settled interpreter threshold :=
  ⟨settled.ready, settled.log⟩

/-! ## Single activities -/

namespace Activity

variable {α : Type} {good : α → Prop} {run : Step α}

/-- A step of the session as an activity: what it has logged is written. -/
theorem step_ends (yields : run.Yields interpreter threshold good)
    (ready : interpreter.Ready threshold console.session) :
    (∃ a after, step run console = .ok a after ∧ after.Settled interpreter threshold ∧ good a) ∨
    ∃ error after, step run console = .error (.error error) after ∧
      after.Settled interpreter threshold ∧ error.Expected threshold := by
  have ends := yields console.session ready
  obtain ⟨session, output⟩ := console
  simp only [step]
  cases h : run session with
  | ok a after =>
      rw [h] at ends
      exact Or.inl ⟨a, _, rfl, ⟨ends.1.withLog #[], rfl⟩, ends.2⟩
  | error error after =>
      rw [h] at ends
      exact Or.inr ⟨error, _, rfl, ⟨ends.1.withLog #[], rfl⟩, ends.2⟩

/-- An attempted step succeeds, or fails with an error of the language; else it ends in a fault. -/
theorem attempt_ends (yields : run.Yields interpreter threshold good)
    (ready : interpreter.Ready threshold console.session) :
    (∃ a after, step run console = .ok a after ∧ attempt run console = .ok (.ok a) after ∧
      after.Settled interpreter threshold ∧ good a) ∨
    (∃ error after, step run console = .error (.error error) after ∧
      attempt run console = .ok (.error error) after ∧
      after.Settled interpreter threshold ∧ error.isOfLanguage = true) ∨
    ∃ fault after, attempt run console = .error fault after ∧ fault.OfProgram threshold := by
  simp only [attempt]
  rcases step_ends yields ready with ⟨a, after, h, settled, ha⟩ | ⟨error, after, h, settled, expected⟩
  · rw [h]
    exact Or.inl ⟨a, after, rfl, rfl, settled, ha⟩
  · rw [h]
    by_cases language : error.isOfLanguage = true
    · exact Or.inr (Or.inl ⟨error, after, rfl, by simp [language], settled, language⟩)
    · obtain ⟨cause, rfl, stops⟩ := expected.resolve_left language
      exact Or.inr (Or.inr ⟨_, after, by simp [language], cause, rfl, stops⟩)

/-- A value is written as a line, or it is an integer of too many digits. -/
theorem outValue_ends {value : Value} (language : value.OfLanguage)
    (settled : console.Settled interpreter threshold) :
    (∃ text, value.display? console.session.heap = .ok text ∧
      outValue value console = .ok () (console.wrote (.out (text ++ "\n")))) ∨
    ∃ fault after, outValue value console = .error fault after ∧ fault.OfProgram threshold := by
  obtain ⟨⟨heap, depthLimit, old, log, objects⟩, output⟩ := console
  obtain ⟨ready, log_eq⟩ := settled
  cases log_eq
  rcases Step.display_ends language ready with ⟨text, shown, h⟩ | ⟨error, h, stops⟩
  · refine Or.inl ⟨text, shown, ?_⟩
    have written : step (Step.display value) ⟨⟨heap, depthLimit, old, #[], objects⟩, output⟩ =
        .ok text ⟨⟨heap, depthLimit, old, #[], objects⟩, output⟩ := by
      simp only [step, h]
      simp
    exact bind_of_ok written _
  · have failed : step (Step.display value) ⟨⟨heap, depthLimit, old, #[], objects⟩, output⟩ =
        .error (.error (.evaluation error)) ⟨⟨heap, depthLimit, old, #[], objects⟩, output⟩ := by
      simp only [step, h]
      simp
    exact Or.inr ⟨_, _, bind_of_error failed _, error, rfl, stops⟩

end Activity

/-! ## The loop -/

namespace Repl

open Activity

/-- The forms of a text are answered, or one of them ends the loop. -/
theorem evalForms_ends (ready : interpreter.Ready threshold console.session) (es : List Expr) :
    (∃ after, evalForms interpreter es console = .ok () after ∧ Answers interpreter es console after ∧
      interpreter.Ready threshold after.session) ∨
    ∃ fault after, evalForms interpreter es console = .error fault after ∧
      fault.OfProgram threshold := by
  induction es generalizing console with
  | nil => exact Or.inl ⟨console, rfl, .none, ready⟩
  | cons e es ih =>
      rw [evalForms]
      rcases attempt_ends (Step.yields_evalForm e) ready with
        ⟨value, mid, hstep, h, settled, language⟩ | ⟨error, mid, hstep, h, settled, language⟩ |
        ⟨fault, after, h, ofProgram⟩
      · rw [bind_of_ok h]
        rcases outValue_ends language settled with ⟨text, shown, hout⟩ | ⟨fault, after, hout, ofProgram⟩
        · simp only [bind_of_ok hout]
          rcases ih (settled.wrote _).ready with ⟨after, hrest, answers, ready'⟩ | stopped
          · exact Or.inl ⟨after, hrest, .value hstep shown answers, ready'⟩
          · exact Or.inr stopped
        · exact Or.inr ⟨fault, after, bind_of_error hout _, ofProgram⟩
      · rw [bind_of_ok h]
        exact Or.inl ⟨_, rfl, .report hstep language, (settled.wrote _).ready⟩
      · exact Or.inr ⟨fault, after, bind_of_error h _, ofProgram⟩

/-- One line is taken, or a form of it ends the loop. -/
theorem feed_ends (ready : interpreter.Ready threshold console.session) (waiting line : String) :
    (∃ waiting' after, feed ⟨interpreter, waiting⟩ line console = .ok ⟨interpreter, waiting'⟩ after ∧
      Turn interpreter waiting line console waiting' after ∧
      interpreter.Ready threshold after.session) ∨
    ∃ fault after, feed ⟨interpreter, waiting⟩ line console = .error fault after ∧
      fault.OfProgram threshold := by
  unfold feed
  cases hread : readAll (waiting ++ line) with
  | error error =>
      have language := TokenStream.isOfLanguage_of_readAll hread
      by_cases incomplete : error.incomplete = true
      · simp only [if_pos incomplete]
        exact Or.inl ⟨_, _, rfl, .waits hread incomplete, ready⟩
      · simp only [if_neg incomplete]
        exact Or.inl ⟨_, _, rfl, .refused hread (Bool.not_eq_true _ ▸ incomplete) language, ready⟩
  | ok es =>
      rcases evalForms_ends ready es with ⟨mid, h, answers, ready'⟩ | ⟨fault, after, h, ofProgram⟩
      · exact Or.inl ⟨_, _, bind_of_ok h _, .answered hread answers, ready'⟩
      · exact Or.inr ⟨fault, after, bind_of_error h _, ofProgram⟩

/-- All lines are taken, or one of them ends the loop. -/
theorem feedAll_ends (ready : interpreter.Ready threshold console.session) (waiting : String)
    (lines : List String) :
    (∃ repl after, feedAll ⟨interpreter, waiting⟩ lines console = .ok repl after ∧
      Dialogue interpreter waiting lines console after) ∨
    ∃ fault after, feedAll ⟨interpreter, waiting⟩ lines console = .error fault after ∧
      fault.OfProgram threshold := by
  induction lines generalizing waiting console with
  | nil => exact Or.inl ⟨_, console, rfl, .finished⟩
  | cons line lines ih =>
      rw [feedAll]
      rcases feed_ends ready waiting line with
        ⟨waiting', mid, h, turn, ready'⟩ | ⟨fault, after, h, ofProgram⟩
      · rw [bind_of_ok h]
        exact (ih ready' waiting').imp
          (fun ⟨repl, after, rest, dialogue⟩ => ⟨repl, after, rest, .line turn dialogue⟩) id
      · exact Or.inr ⟨fault, after, bind_of_error h _, ofProgram⟩

/-- The whole loop: all lines are taken and the last line on the screen is ended, or one of them ends
the loop. -/
theorem run_ends (ready : interpreter.Ready threshold console.session) (lines : List String) :
    (∃ after, run interpreter lines console = .ok () (after.wrote (.out "\n")) ∧
      Dialogue interpreter "" lines (console.wrote (.out prompt)) after) ∨
    ∃ fault after, run interpreter lines console = .error fault after ∧
      fault.OfProgram threshold := by
  have started : start interpreter console = .ok ⟨interpreter, ""⟩ (console.wrote (.out prompt)) := rfl
  have ready' : interpreter.Ready threshold (console.wrote (.out prompt)).session := ready
  rw [run, bind_of_ok started]
  rcases feedAll_ends ready' "" lines with ⟨repl, after, h, dialogue⟩ | ⟨fault, after, h, ofProgram⟩
  · rw [bind_of_ok h]
    exact Or.inl ⟨after, rfl, dialogue⟩
  · exact Or.inr ⟨fault, after, bind_of_error h _, ofProgram⟩

end Repl

/-! ## Files -/

/-- To log that a file is run always succeeds. -/
theorem Activity.running_ends (ready : interpreter.Ready threshold console.session) (path : String) :
    ∃ after, step (Step.record (.running path)) console = .ok () after ∧
      interpreter.Ready threshold after.session := by
  obtain ⟨session, output⟩ := console
  obtain ⟨log, h⟩ := Step.record_running_ok ready.limit path
  simp only [step, h]
  exact ⟨_, rfl, ready.withLog #[]⟩

/-- A file is run as `FileRun` says, or the run ends in a fault that its name or its content is the
cause of. -/
theorem runFile_ends (ready : interpreter.Ready threshold console.session)
    (readFile : String → Except FileFailure ByteArray) (program : String) :
    (∃ mid status after,
      Activity.step (Step.record (.running (plainPath program))) console = .ok () mid ∧
      runFile readFile interpreter program console = .ok status after ∧
      FileRun readFile interpreter (plainPath program) mid status after) ∨
    ∃ fault after, runFile readFile interpreter program console = .error fault after ∧
      fault.OfFile readFile (plainPath program) threshold := by
  obtain ⟨mid, running, ready'⟩ := Activity.running_ends ready (plainPath program)
  unfold runFile
  simp only [bind_of_ok running]
  by_cases null : (plainPath program).toList.contains '\x00' = true
  · simp only [if_pos null]
    exact Or.inr ⟨_, _, rfl, .null null⟩
  simp only [if_neg null]
  cases hread : readFile (plainPath program) with
  | error failure => exact Or.inl ⟨mid, 1, _, running, rfl, .unreadable hread⟩
  | ok bytes =>
  cases hdecode : decodeSource bytes with
  | error fault =>
      simp only [hdecode]
      exact Or.inr ⟨fault, mid, rfl, .undecodable hread hdecode⟩
  | ok source =>
  simp only [hdecode]
  rcases Activity.attempt_ends (Step.yields_eval source) ready' with
    ⟨value, after, hstep, h, settled, language⟩ | ⟨error, after, hstep, h, settled, language⟩ |
    ⟨fault, after, h, ofProgram⟩
  · simp only [bind_of_ok h]
    rcases Activity.outValue_ends language settled with
      ⟨text, shown, hout⟩ | ⟨fault, last, hout, ofProgram⟩
    · exact Or.inl ⟨mid, 0, _, running, bind_of_ok hout _, .value hread hdecode hstep shown⟩
    · exact Or.inr ⟨fault, last, bind_of_error hout _, .program hread hdecode ofProgram⟩
  · simp only [bind_of_ok h]
    exact Or.inl ⟨mid, 1, _, running, rfl, .report hread hdecode hstep language⟩
  · exact Or.inr ⟨fault, after, bind_of_error h _, .program hread hdecode ofProgram⟩

/-! ## The command line -/

/-- **Reported failures**: the loop over the lines of an input, whatever they are, takes each of them
and answers with values and with reports, down to the end of the input; and a file is run to status 0
behind the value of its last form, or to status 1 behind a report.  The exceptions are the faults
that are none of the language: they end the loop or the run where they occur. -/
theorem command_line_ends {settings : Settings} {level : Option LogLevel} {interpreter : Interpreter}
    {console : Console} (h : setUp settings level .start = .ok interpreter console) :
    (∀ lines,
      (∃ last, Repl.run interpreter lines console = .ok () (last.wrote (.out "\n")) ∧
        Dialogue interpreter "" lines (console.wrote (.out Repl.prompt)) last) ∨
      ∃ fault last, Repl.run interpreter lines console = .error fault last ∧
        fault.OfProgram console.session.threshold) ∧
    ∀ readFile program,
      (∃ mid status last,
        Activity.step (Step.record (.running (plainPath program))) console = .ok () mid ∧
        runFile readFile interpreter program console = .ok status last ∧
        FileRun readFile interpreter (plainPath program) mid status last) ∨
      ∃ fault last, runFile readFile interpreter program console = .error fault last ∧
        fault.OfFile readFile (plainPath program) console.session.threshold := by
  obtain ⟨begins, limit⟩ := setUp_begins h
  have ready := begins.ready limit
  exact ⟨Repl.run_ends ready, runFile_ends ready⟩

/-- A form that fails, and then one that takes two lines. -/
theorem command_line_ends_reported :
    let lines := ["(/ 1 0)\n", "(+ 1\n", "2)\n"]
    ∃ interpreter console last, setUp .none none .start = .ok interpreter console ∧
      Repl.run interpreter lines console = .ok () (last.wrote (.out "\n")) ∧
      Dialogue interpreter "" lines (console.wrote (.out Repl.prompt)) last ∧
      last.output.toList = [.out "lambic> ", .err "DivisionByZero: Division by zero\n",
        .out "lambic> ", .out "....... ", .out "3\n", .out "lambic> "] := by
  intro lines
  have written : (match setUp .none none .start with
      | .error _ _ => false
      | .ok interpreter console => match Repl.run interpreter lines console with
        | .error _ _ => false
        | .ok _ after => after.output.toList.dropLast == [.out "lambic> ",
            .err "DivisionByZero: Division by zero\n", .out "lambic> ", .out "....... ",
            .out "3\n", .out "lambic> "]) = true := by
    decide +kernel
  cases made : setUp .none none .start with
  | error fault after =>
      rw [made] at written
      cases written
  | ok interpreter console =>
      rw [made] at written
      rcases (command_line_ends made).1 lines with ⟨last, h, dialogue⟩ | ⟨fault, last, h, _⟩
      · simp only [h, Console.wrote, Array.toList_push, List.dropLast_concat, beq_iff_eq] at written
        exact ⟨interpreter, console, last, rfl, h, dialogue, written⟩
      · simp only [h] at written
        cases written

/-! ## A literal of too many digits -/

/-- A literal of too many digits cannot be evaluated. -/
theorem evaluate_oversized {session : Session} (limit : 0 < session.depthLimit) {text : String}
    {digits : Nat} (h : Literal.ofText text = .oversized digits) (env : FrameId) :
    Step.evaluate (.atom text) env session =
      .error (.evaluation (.oversizedLiteral digits)) session := by
  obtain ⟨heap, depthLimit, threshold, log, objects⟩ := session
  obtain ⟨levels, rfl⟩ := Nat.exists_eq_succ_of_ne_zero (Nat.ne_of_gt limit)
  simp only [Step.evaluate, Call.perform, Call.step, Call.evalCode, Call.evalAtom, h]
  rfl

theorem evalForm_oversized {session : Session} (limit : 0 < session.depthLimit) {text : String}
    {digits : Nat} (h : Literal.ofText text = .oversized digits) :
    ∃ after, interpreter.evalForm (.atom text) session =
      .error (.evaluation (.oversizedLiteral digits)) after := by
  have refused (log : Array String) :
      Step.evaluate (.atom text) interpreter.root { session with log := log } =
        .error (.evaluation (.oversizedLiteral digits)) { session with log := log } :=
    @evaluate_oversized { session with log := log } limit text digits h _
  obtain ⟨log, ⟨_, _, evaluated, -⟩ | ⟨_, _, log', evaluated, ended⟩⟩ :=
    interpreter.evalForm_written (e := .atom text) limit fun _ => limit
  · cases (refused log).symm.trans evaluated
  · cases (refused log).symm.trans evaluated
    exact ⟨_, ended⟩

section Digits

open Literal.Grammar

variable {ds : List Char} (word : ds ∈ digits)
include word

/-- A row of digits on a line of its own is read as one atom. -/
theorem readAll_digits : readAll (String.ofList ds ++ "\n") = .ok [.atom (String.ofList ds)] := by
  obtain ⟨nonempty, isAtom⟩ := isAtom_of_mem_digits word
  rw [← String.toList_ofList (l := ds)] at isAtom
  have delimited : Lexer.Delimited ['\n'] := by
    rintro _ ⟨⟩
    decide
  obtain ⟨position, tokens, hfinish, hlexemes⟩ :=
    Lexer.spells_atom (mt String.ofList_eq_empty_iff.mp nonempty) isAtom delimited 0 #[]
  have hlex : lex (String.ofList ds ++ "\n") = ⟨tokens.toList, none⟩ := by
    rw [lex, String.toList_append, Lexer.start]
    exact hfinish
  rw [readAll_eq_ok_iff_spelling, hlex]
  exact ⟨rfl, hlexemes⟩

theorem ofText_digits (many : Number.digitLimit < ds.length) :
    Literal.ofText (String.ofList ds) = .oversized ds.length := by
  have unsigned : [] ∈ sign := mem_sign.mpr (Or.inl rfl)
  exact Literal.ofText_of_means (.oversized unsigned word String.toList_ofList many)

/-- A literal of too many digits on a line of its own ends the loop; no line behind it is taken. -/
theorem Repl.run_oversized (limit : 0 < console.session.depthLimit) (many : Number.digitLimit < ds.length)
    (lines : List String) :
    ∃ last, Repl.run interpreter ((String.ofList ds ++ "\n") :: lines) console =
      .error (.error (.evaluation (.oversizedLiteral ds.length))) last := by
  obtain ⟨after, stopped⟩ := @evalForm_oversized interpreter _ limit _ _ (ofText_digits word many)
  have attempted : ∃ last, Activity.attempt
      (interpreter.evalForm (Expr.atom (String.ofList ds)).toValue)
      (console.wrote (.out prompt)) =
        .error (.error (.evaluation (.oversizedLiteral ds.length))) last := by
    simp only [Activity.attempt, Activity.step, Console.wrote, Expr.toValue, stopped]
    exact ⟨_, rfl⟩
  obtain ⟨last, attempted⟩ := attempted
  have fed : feed ⟨interpreter, ""⟩ (String.ofList ds ++ "\n") (console.wrote (.out prompt)) =
      .error (.error (.evaluation (.oversizedLiteral ds.length))) last := by
    have read := readAll_digits word
    simp only [feed, String.empty_append, read]
    exact bind_of_error (bind_of_error attempted _) _
  have started : start interpreter console = .ok ⟨interpreter, ""⟩ (console.wrote (.out prompt)) := rfl
  rw [run, bind_of_ok started, feedAll]
  exact ⟨last, bind_of_error (bind_of_error fed _) _⟩

end Digits

/-- One digit too many: the loop ends, and the sum on the next line is not evaluated any more. -/
theorem repl_stopped_by_literal : ∃ interpreter console last,
    setUp .none none .start = .ok interpreter console ∧
    Repl.run interpreter [String.ofList (List.replicate 4301 '1') ++ "\n", "(+ 1 2)\n"] console =
      .error (.error (.evaluation (.oversizedLiteral 4301))) last := by
  obtain ⟨interpreter, console, made⟩ : ∃ interpreter console,
      setUp .none none .start = .ok interpreter console := ⟨_, _, rfl⟩
  have word : List.replicate 4301 '1' ∈ Literal.Grammar.digits := by
    refine Literal.Grammar.mem_digits.mpr ⟨List.cons_ne_nil '1' _, fun c mem => ?_⟩
    rw [List.eq_of_mem_replicate mem]
    rfl
  have many : Number.digitLimit < (List.replicate 4301 '1').length := by
    rw [List.length_replicate]
    decide
  obtain ⟨last, stopped⟩ := Repl.run_oversized word (setUp_begins made).2 many ["(+ 1 2)\n"]
  rw [List.length_replicate] at stopped
  exact ⟨interpreter, console, last, made, stopped⟩

end ScopedLisp.CommandLine
