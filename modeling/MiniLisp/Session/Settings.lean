import MiniLisp.Text.Blank

/-!
# Settings

What a user sets through variables: from which level on messages are logged, the prompt, and
whether output may be coloured.
-/

namespace MiniLisp

/-- The settings of a session. -/
structure Settings where
  /-- The least weight that is logged. -/
  threshold : Nat
  prompt : String
  /-- Whether output on a terminal is coloured. -/
  colour : Bool
deriving DecidableEq, Repr

namespace Settings

/-- A letter as a capital. Two letters beyond the basic ones have a basic capital. -/
def capital (c : Char) : Char :=
  if c = 'ı' then 'I' else if c = 'ſ' then 'S' else c.toUpper

/-- The weight of a level by its name in capitals. -/
def weight? : String → Option Nat
  | "CRITICAL" | "FATAL" => some 50
  | "ERROR" => some 40
  | "WARNING" | "WARN" => some 30
  | "INFO" => some 20
  | "DEBUG" => some 10
  | "NOTSET" => some 0
  | _ => none

/-- The weight of warnings, which is in force where no level is named. -/
def warningWeight : Nat := 30

/-- The weight that a level's name stands for, in letters of either case and between blanks. -/
def thresholdOf (name : String) : Nat :=
  (weight? (String.ofList ((Text.trimBlanks name.toList).map capital))).getD warningWeight

/-- The prompt where none is set. -/
def defaultPrompt : String := ">>> "

/-- The variables that give settings. -/
def variableNames : List String := ["RISP_LOG_LEVEL", "RISP_PROMPT", "RISP_NO_COLOR"]

/-- The settings that the variables give. -/
def ofVariables (lookup : String → Option String) : Settings where
  threshold := ((lookup "RISP_LOG_LEVEL").map thresholdOf).getD warningWeight
  prompt := (lookup "RISP_PROMPT").getD defaultPrompt
  colour := ((lookup "RISP_NO_COLOR").getD "").isEmpty

/-- Whether output on a stream is coloured. -/
def colours (settings : Settings) (isTerminal : Bool) : Bool := settings.colour && isTerminal

end Settings

/-! ## Colours -/

/-- The two colours of the output. -/
inductive Colour where
  | result | error
deriving DecidableEq, Repr

/-- What switches a terminal to the colour. -/
def Colour.code : Colour → String
  | result => "\x1b[32m"
  | error => "\x1b[33m"

/-- A text in a colour, if output is coloured. -/
def paint (coloured : Bool) (colour : Colour) (text : String) : String :=
  if coloured then colour.code ++ text ++ "\x1b[0m" else text

example : Settings.thresholdOf "\tDebug\n" = 10 := by decide +kernel
example : Settings.thresholdOf "Level 10" = 30 := by decide +kernel

end MiniLisp
