import ScopedLisp.Literal
import ScopedLisp.Log
import ScopedLisp.Text.Blank
import ScopedLisp.Text.Uppercase

/-!
# ScopedLisp.Settings

Settings that come from outside as texts: the least depth limit wanted and the log
level.  A text that makes no sense is reported and ignored, and so is a missing or an
empty one, without report.
-/

namespace ScopedLisp

open Text

/-- The texts of the settings, as far as they are given. -/
structure Settings where
  depthLimit : Option String
  logLevel : Option String
  deriving Repr, DecidableEq, Inhabited

namespace Settings

/-- No settings. -/
def none : Settings := ⟨.none, .none⟩

/-- The variable that holds the depth limit. -/
def depthLimitVariable : String := "LAMBIC_RECURSION_LIMIT"

/-- The variable that holds the log level. -/
def logLevelVariable : String := "LAMBIC_LOG_LEVEL"

/-! ## Integers -/

/-- The digits of a text in which single underscores may stand between digits. -/
def ungroupDigits? : List Char → Option (List Char)
  | [] => .none
  | [c] => if isDecimalDigit c then some [c] else .none
  | c :: '_' :: rest => if isDecimalDigit c then (ungroupDigits? rest).map (c :: ·) else .none
  | c :: rest => if isDecimalDigit c then (ungroupDigits? rest).map (c :: ·) else .none

/-- The integer that a text is: a sign, which may be missing, and digits, with white space
around; none if it is no integer or has too many digits. -/
def integer? (text : String) : Option Int :=
  let (negative, body) := Literal.splitSign (trimBlanks text.toList)
  match ungroupDigits? body with
  | .none => .none
  | some digits =>
    if Number.digitLimit < digits.length then .none
    else
      let n : Int := Literal.digitsValue digits
      some (if negative then -n else n)

/-! ## Reading the settings -/

/-- The depth limit asked for, and what there is to report about it. -/
def readDepthLimit (settings : Settings) : Option Nat × List LogRecord :=
  match settings.depthLimit with
  | .none => (.none, [])
  | some text =>
    if text.isEmpty then (.none, [])
    else match integer? text with
      | .none => (.none, [.ignored depthLimitVariable text "not an integer"])
      | some n =>
        if n ≤ 0 then (.none, [.ignored depthLimitVariable text "must be positive"])
        else (some n.toNat, [])

/-- The log level where none is asked for. -/
def defaultLogLevel : LogLevel := .warning

/-- The log level asked for, in letters of either case, and what there is to report about it. -/
def readLogLevel (settings : Settings) : LogLevel × List LogRecord :=
  let level := upper (String.ofList (trimBlanks (settings.logLevel.getD "").toList))
  if level.isEmpty then (defaultLogLevel, [])
  else match LogLevel.ofName? level with
    | some level => (level, [])
    | .none => (defaultLogLevel, [.ignored logLevelVariable level "not a log level"])

end Settings

end ScopedLisp
