import MiniLisp.Interpreter
import MiniLisp.Session.Settings

/-!
# Reports of a session

What a session writes besides the output of programs: results, errors, and the lines of the
log that tell of reading.
-/

namespace MiniLisp.Session

/-- Writes to the first output. -/
def write (text : String) : Action Unit := Action.onConsole (·.write text)

variable [Host]

/-- Shows a result, unless it is the absent value. -/
def showResult (coloured : Bool) : Value → Action Unit
  | .null => pure ()
  | v => do
    let text ← Action.ofFaulty v.inspect
    write (paint coloured .result text ++ "\n")

/-- Shows an error. -/
def showError (coloured : Bool) (report : String) : Action Unit :=
  Action.onConsole (·.writeError (paint coloured .error report ++ "\n"))

/-- The contents of the log's lines on a token: a number with a sign is found twice, first
without it. -/
def tokenLines (t : Token) : List (List Char) :=
  match t.kind, t.content with
  | .int, c :: cs | .float, c :: cs => if isSign c then [cs, c :: cs] else [c :: cs]
  | _, cs => [cs]

/-- The log's lines on a text that was read, as written to a console. -/
def logReading (cs : List Char) (reading : Reading) (c : Console) : Console :=
  if c.threshold ≤ LogLevel.debug.weight then
    let c := (tokensWithin cs reading.consumed).foldl (fun c t =>
      (tokenLines t).foldl (fun c content => c.log .debug "risp.reader.lexer"
        ("token " ++ t.kind.label ++ " " ++ Text.quoted content)) c) c
    match reading.result with
    | .ok nodes => c.log .debug "risp.reader.parser"
        ("parsed " ++ toString nodes.length ++ " top-level form(s)")
    | .error _ => c
  else c

/-- Reads a text and logs it. -/
def readLogged (cs : List Char) : Action (Except ReadFailure (List Node)) := do
  let reading := read cs
  Action.onConsole (logReading cs reading)
  return reading.result

/-- Runs something whose errors are shown; whether there was none. -/
def reporting (coloured : Bool) (action : Action Unit) : Action Bool := fun s =>
  match action s with
  | .ok () s' => .ok true s'
  | .error (.error e) s' => (showError coloured e.report >>= fun _ => pure false) s'
  | .error halt s' => .error halt s'

/-- Reads a text and runs something on its forms; whether there was no error in either. -/
def readAnd (coloured : Bool) (cs : List Char) (run : List Node → Action Unit) : Action Bool := do
  match ← readLogged cs with
  | .ok nodes => reporting coloured (run nodes)
  | .error (.malformed e) => do
    showError coloured e.report
    return false
  | .error (.fault f) => throw (.fault f)

end MiniLisp.Session
