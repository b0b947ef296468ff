import MiniLisp.Text.Lines

/-!
# The console

What a program reads from, and what it has written to its two outputs. The second output
takes error reports and, from a given level on, the lines of the log.
-/

namespace MiniLisp

/-- The levels at which something is logged. -/
inductive LogLevel where
  | debug | info
deriving DecidableEq, Repr

namespace LogLevel

/-- The level's weight. -/
def weight : LogLevel → Nat
  | debug => 10
  | info => 20

/-- The level's name. -/
def label : LogLevel → String
  | debug => "DEBUG"
  | info => "INFO"

end LogLevel

/-- What happens to a read when all of the input has been read. -/
inductive InputEnd where
  | closed
  | failing (reason : String)
  | interrupted
deriving DecidableEq, Repr

/-- What came of reading a line. -/
inductive LineRead where
  /-- A line, with its newline if it has one. -/
  | line (cs : List Char)
  | ended
  | failed (reason : String)
  | interrupted
deriving DecidableEq, Repr

/-- An input with what follows it, two outputs, and the least weight that is logged. -/
structure Console where
  input : List Char
  inputEnd : InputEnd
  out : String
  err : String
  threshold : Nat
deriving Repr

namespace Console

/-- A console on which nothing has been written; the log begins at a weight. -/
def ofInput (input : String) (inputEnd : InputEnd) (threshold : Nat) : Console :=
  ⟨input.toList, inputEnd, "", "", threshold⟩

/-- Writes to the first output. -/
def write (c : Console) (text : String) : Console := { c with out := c.out ++ text }

/-- Writes to the second output. -/
def writeError (c : Console) (text : String) : Console := { c with err := c.err ++ text }

/-- Logs a message under the name of a part of the program. -/
def log (c : Console) (level : LogLevel) (part message : String) : Console :=
  if c.threshold ≤ level.weight then
    c.writeError (level.label ++ " " ++ part ++ ": " ++ message ++ "\n")
  else c

/-- Reads one line. -/
def readLine (c : Console) : LineRead × Console :=
  if c.input.isEmpty then
    match c.inputEnd with
    | .closed => (.ended, c)
    | .failing reason => (.failed reason, c)
    | .interrupted => (.interrupted, c)
  else
    let (line, rest) := Text.takeLine c.input
    (.line line, { c with input := rest })

end Console

end MiniLisp
