import MiniLisp.Session.Script

/-!
# The command line

A session between the streams, files and variables of a process. What a session does is a
function of its whole input, so a computation that comes to the end of a terminal's input is
run again with one line more, and of its outputs only what is new is written.
-/

namespace MiniLisp.Session

/-- More rounds than any loop goes through. -/
def roundLimit : Nat := 1000000000000000000

/-- The settings that the variables of the process give. -/
def processSettings : IO Settings := do
  let found ← Settings.variableNames.mapM fun name => return (name, ← IO.getEnv name)
  return Settings.ofVariables fun name => (found.lookup name).join

/-- The content of a file, or why there is none. A path through a file cannot be opened, and a
directory can be opened but not read, which the error tells by not naming it. -/
def fileContent (path : String) : IO (Except PathError ByteArray) := do
  try
    return .ok (← IO.FS.readBinFile (Path.ofString path).text)
  catch
    | .noFileOrDirectory .. => return .error .missing
    | .inappropriateType (some _) .. => return .error .notDirectory
    | .inappropriateType none .. => return .error .isDirectory
    | e => throw e

/-- One more line of input, empty at the input's end, and what then follows it. -/
def awaitLine : IO (String × InputEnd) := do
  try
    let line ← (← IO.getStdin).getLine
    return (line, if line.isEmpty then .closed else .interrupted)
  catch e => return ("", .failing (toString e))

/-- All input behind a text, with the text, and what then follows it. -/
partial def awaitAll (text : String) : IO (String × InputEnd) := do
  match ← awaitLine with
  | (line, .interrupted) => awaitAll (text ++ line)
  | (_, inputEnd) => return (text, inputEnd)

/-- Writes all of a text but its first characters. -/
def writeFrom (stream : IO.FS.Stream) (written : Nat) (text : String) : IO Unit := do
  stream.putStr (text.drop written).toString
  stream.flush

/-- Runs a computation, of whose two outputs as many characters as given are written already;
at the end of the input it waits for more. -/
partial def perform {α : Type} (action : Action α) (s : State) (out err : Nat) :
    IO (Except Halt α × State) := do
  let (result, last) : Except Halt α × State :=
    match action s with
    | .ok a last => (.ok a, last)
    | .error halt last => (.error halt, last)
  writeFrom (← IO.getStdout) out last.console.out
  writeFrom (← IO.getStderr) err last.console.err
  match result with
  | .error (.fault .interrupted) =>
    let (line, inputEnd) ← awaitLine
    let console := { s.console with input := s.console.input ++ line.toList, inputEnd }
    perform action { s with console } last.console.out.length last.console.err.length
  | _ => return (result, { last with console := { last.console with out := "", err := "" } })

/-- The exit status of a session that cannot go on, which says why. -/
def abandon (halt : Halt) : IO UInt32 := do
  let reason := match halt with
    | .error e => e.report
    | .fault f => f.message?.getD "the session cannot go on"
    | .outOfRounds => "a loop has not ended"
  (← IO.getStderr).putStrLn reason
  return 1

/-- The turns of a dialogue. -/
partial def converse (settings : Settings) (coloured : Bool) (s : State) : IO UInt32 := do
  match ← perform (turn roundLimit settings coloured) s 0 0 with
  | (.ok true, s) => converse settings coloured s
  | (.ok false, _) => return 0
  | (.error halt, _) => abandon halt

/-- The session that the arguments ask for. -/
def serve (args : List String) : IO UInt32 := do
  let settings ← processSettings
  let coloured := settings.colours ((← (← IO.getStdout).isTty) && (← (← IO.getStderr).isTty))
  let (text, inputEnd) ← if ← (← IO.getStdin).isTty then pure ("", .interrupted) else awaitAll ""
  let s : State := ⟨Environment.initial, Console.ofInput text inputEnd settings.threshold⟩
  match args with
  | [] =>
    let (_, s) ← perform (write banner) s 0 0
    converse settings coloured s
  | path :: _ =>
    match ← perform (runScript roundLimit coloured path (← fileContent path)) s 0 0 with
    | (.ok status, _) => return status.toUInt32
    | (.error halt, _) => abandon halt

end MiniLisp.Session

/-- Runs the script that the first argument names, or a dialogue without one. -/
def main (args : List String) : IO UInt32 := MiniLisp.Session.serve args
