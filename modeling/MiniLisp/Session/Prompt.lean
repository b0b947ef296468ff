import MiniLisp.Session.Report

/-!
# The prompt

A dialogue: a prompt is written, a line is read, its forms are run and their results shown.
An error ends the line it is on; only a line that says so, or the end of the input, ends the
dialogue.
-/

namespace MiniLisp.Session

/-- What is written before the first prompt. -/
def banner : String :=
  "risp v0.3.0\nType 'bugs' or 'copyright' for more information.\nType 'q' or 'quit' to quit\n"

/-- What is written at the end of a dialogue. -/
def farewell : String := "Quitting\n"

/-- What a line asks for. -/
inductive Command where
  | quit
  /-- To be told something. -/
  | tell (text : String)
  /-- To run the line. -/
  | run
deriving DecidableEq, Repr

/-- What a line asks for, blanks at its ends aside. -/
def Command.ofLine (cs : List Char) : Command :=
  match String.ofList (Text.trimBlanks cs) with
  | "q" | "quit" => quit
  | "bugs" => tell "Report bugs at https://github.com/shivrm/risp/issues"
  | "copyright" => tell "Copyright (c) 2022 shivrm"
  | _ => run

variable [Host]

/-- Evaluates forms in order and shows their results. -/
def showForms (rounds : Nat) (coloured : Bool) : List Node → Action Unit
  | [] => pure ()
  | node :: nodes => do
    let value ← evalForm rounds node
    showResult coloured value
    showForms rounds coloured nodes

/-- Runs a line; whether there was no error. -/
def runLine (rounds : Nat) (coloured : Bool) (cs : List Char) : Action Bool :=
  readAnd coloured cs (showForms rounds coloured)

/-- Reads a line of the dialogue, if there is one more. -/
def readLine? : Action (Option (List Char)) := do
  let s ← get
  let (read, console) := s.console.readLine
  set { s with console }
  match read with
  | .line cs => return some cs
  | .ended => return none
  | .failed reason => throw (.fault (.readFailed reason))
  | .interrupted => throw (.fault .interrupted)

/-- One turn of the dialogue; whether another follows. -/
def turn (rounds : Nat) (settings : Settings) (coloured : Bool) : Action Bool := do
  write settings.prompt
  match ← readLine? with
  | none => do
    write "\n"
    return false
  | some cs =>
    match Command.ofLine cs with
    | .quit => do
      write farewell
      return false
    | .tell text => do
      write (text ++ "\n")
      return true
    | .run => do
      let _ ← runLine rounds coloured cs
      return true

/-- As many turns as there are, `turns` at most. -/
def takeTurns (rounds : Nat) (settings : Settings) (coloured : Bool) : Nat → Action Unit
  | 0 => pure ()
  | turns + 1 => do
    if ← turn rounds settings coloured then takeTurns rounds settings coloured turns

/-- The dialogue. Each turn but the last takes a line, so there are no more of them than
characters of input and one. -/
def dialogue (rounds : Nat) (settings : Settings) (isTerminal : Bool) : Action Unit := do
  write banner
  let s ← get
  takeTurns rounds settings (settings.colours isTerminal) (s.console.input.length + 1)

end MiniLisp.Session
