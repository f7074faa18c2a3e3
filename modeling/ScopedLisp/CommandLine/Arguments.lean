import ScopedLisp.Literal
import ScopedLisp.Log
import ScopedLisp.Text.Uppercase

/-!
# ScopedLisp.CommandLine.Arguments

The arguments of the command line: at most one program, and two options,

```
-h, --help            show the help and stop
--log-level LEVEL     one of the log levels, in letters of either case
```

Long options may be cut short as long as they stay unambiguous, and the value of either
may follow an equals sign.  Behind a bare `--` everything is a program; as the value of
an option it takes back what the option said before.  Arguments that
look like options but are none, and programs beyond the first, are collected and
refused at the end, so that a request for help among them is still heard.
-/

namespace ScopedLisp.CommandLine

/-- What the arguments ask for. -/
inductive Request where
  /-- Run a program, or an interactive loop if there is none. -/
  | run (program : Option String) (level : Option LogLevel)
  | help
  /-- The arguments make no sense, for the reason given. -/
  | refuse (reason : String)
  deriving DecidableEq, Repr

/-! ## Texts -/

/-- How the program is called. -/
def usage : String :=
  "usage: lambic [-h] [--log-level \x7bDEBUG,INFO,WARNING,ERROR,CRITICAL\x7d] [program]\n"

/-- What the program and its arguments are for. -/
def helpText : String :=
  usage ++ "\nInterpreter for a small lexically scoped Lisp.\n\npositional arguments:\n" ++
  "  program               source file to evaluate; omit for a REPL\n\noptions:\n" ++
  "  -h, --help            show this help message and exit\n" ++
  "  --log-level \x7bDEBUG,INFO,WARNING,ERROR,CRITICAL\x7d\n" ++
  "                        logging level (default: $LAMBIC_LOG_LEVEL or WARNING)\n"

/-- A reason for refusal, under the usage. -/
def refusalText (reason : String) : String := usage ++ "lambic: error: " ++ reason ++ "\n"

/-! ## Kinds of argument -/

/-- The options. -/
inductive OptionName where
  | help
  | logLevel
  deriving DecidableEq, Repr

/-- The long spelling of an option. -/
def OptionName.long : OptionName → String
  | .help => "--help"
  | .logLevel => "--log-level"

/-- What one argument is. -/
inductive Word where
  /-- A program, or the value of an option. -/
  | plain (text : String)
  /-- The bare `--`. -/
  | separator
  /-- A long option, with what stands behind its equals sign. -/
  | long (name : OptionName) (value : Option String)
  /-- `-h`, with what stands behind it. -/
  | short (rest : Option (List Char))
  /-- It looks like an option, but is none. -/
  | unknown (text : String)
  deriving DecidableEq, Repr

/-- Does an argument look like a negative number?  Such an argument is no option. -/
def isNegativeNumber (cs : List Char) : Bool :=
  match cs with
  | '-' :: rest =>
    let body := if rest.getLast? = some '\n' then rest.dropLast else rest
    let fraction := body.dropWhile Text.isDecimalDigit
    match fraction with
    | [] => !body.isEmpty
    | '.' :: digits => !digits.isEmpty && digits.all Text.isDecimalDigit
    | _ => false
  | _ => false

/-- A text up to its first equals sign, and what stands behind that. -/
def splitEquals (cs : List Char) : List Char × Option String :=
  match cs.dropWhile (· ≠ '=') with
  | [] => (cs, none)
  | _ :: value => (cs.takeWhile (· ≠ '='), some (String.ofList value))

/-- The long options that a spelling may stand for: itself alone where it is complete, every
option that it begins where it is not. -/
def longMatches (spelling : List Char) : List OptionName :=
  let options := [OptionName.help, .logLevel]
  match options.filter (·.long.toList == spelling) with
  | [] => options.filter fun name => spelling.isPrefixOf name.long.toList
  | found => found

/-- What an argument in front of a bare `--` is, or why it cannot be told. -/
def classify (text : String) : Except String Word :=
  let cs := text.toList
  let neither := if isNegativeNumber cs || cs.contains ' ' then Word.plain text else .unknown text
  match cs with
  | '-' :: '-' :: [] => .ok .separator
  | '-' :: '-' :: _ =>
    let (spelling, value) := splitEquals cs
    match longMatches spelling with
    | [] => .ok neither
    | [name] => .ok (.long name value)
    | several =>
      .error ("ambiguous option: " ++ text ++ " could match " ++
        ", ".intercalate (several.map (·.long)))
  | ['-', 'h'] => .ok (.short none)
  | '-' :: 'h' :: '=' :: value => .ok (.short (some value))
  | '-' :: 'h' :: rest => .ok (.short (some rest))
  | '-' :: _ :: _ => .ok neither
  | _ => .ok (.plain text)

/-- What each argument is; behind a bare `--` all are plain. -/
def classifyAll : List String → Except String (List Word)
  | [] => .ok []
  | text :: rest =>
    match classify text with
    | .error reason => .error reason
    | .ok .separator => .ok (.separator :: rest.map .plain)
    | .ok word => (classifyAll rest).map (word :: ·)

/-! ## Reading -/

/-- The words read so far: the program, if its place is taken, the level and the leftovers. -/
structure Progress where
  program : Option (Option String)
  level : Option LogLevel
  extras : List String

/-- The refusal of a text behind an option that takes none. -/
def ignoredValue (value : String) : Request :=
  .refuse ("argument -h/--help: ignored explicit argument " ++ Text.quoted value)

/-- What `-h` asks for with a text behind it, which must be made of more letters `h`. -/
def shortHelp : List Char → Request
  | ['h'] => .help
  | 'h' :: rest => shortHelp rest
  | rest => ignoredValue (String.ofList rest)

/-- The level that a value names, in letters of either case; no level for a bare `--`. -/
def levelOf (value : String) : Except Request (Option LogLevel) :=
  let name := Text.upper value
  match LogLevel.ofName? name with
  | some level => .ok (some level)
  | none =>
    if value = "--" then .ok none
    else
      .error (.refuse ("argument --log-level: invalid choice: " ++ Text.quoted name ++
        " (choose from " ++ ", ".intercalate (LogLevel.all.map (Text.quoted ·.name)) ++ ")"))

/-- Read the words in order. -/
def readWords (progress : Progress) : List Word → Request
  | [] =>
    if progress.extras.isEmpty then .run (progress.program.getD none) progress.level
    else .refuse ("unrecognized arguments: " ++ " ".intercalate progress.extras)
  | .short none :: _ => .help
  | .short (some rest) :: _ => shortHelp rest
  | .long .help none :: _ => .help
  | .long .help (some value) :: _ => ignoredValue value
  | .long .logLevel (some value) :: words =>
    match levelOf value with
    | .ok level => readWords { progress with level } words
    | .error request => request
  | .long .logLevel none :: .plain value :: words =>
    match levelOf value with
    | .ok level => readWords { progress with level } words
    | .error request => request
  | .long .logLevel none :: _ => .refuse "argument --log-level: expected one argument"
  | .unknown text :: words => readWords { progress with extras := progress.extras ++ [text] } words
  | .plain text :: words =>
    if progress.program.isSome then
      readWords { progress with extras := progress.extras ++ [text] } words
    else
      -- a separator directly behind the program belongs to it
      match words with
      | .separator :: rest => readWords { progress with program := some (some text) } rest
      | rest => readWords { progress with program := some (some text) } rest
  | .separator :: words =>
    if progress.program.isSome then
      readWords { progress with extras := progress.extras ++ ["--"] } words
    else match words with
      | .plain text :: rest => readWords { progress with program := some (some text) } rest
      | rest => readWords { progress with program := some none } rest

/-- What the arguments ask for. -/
def readArguments (arguments : List String) : Request :=
  match classifyAll arguments with
  | .error reason => .refuse reason
  | .ok words => readWords ⟨none, none, []⟩ words

end ScopedLisp.CommandLine
