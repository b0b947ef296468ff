import MiniLisp.Session.Directory
import MiniLisp.Session.Prompt

/-!
# Running a script, and the program

A script is run form by form up to the first error; its exit status tells whether there was
one. The program runs the script that its first argument names, or else a dialogue.
-/

namespace MiniLisp.Session

/-- The text of a script: what its bytes encode, with every line ended by a newline. -/
def scriptText (bytes : ByteArray) : Option (List Char) :=
  (String.fromUTF8? bytes).map fun text => Text.unifyNewlines text.toList

variable [Host]

/-- Evaluates forms in order. -/
def runForms (rounds : Nat) : List Node → Action Unit
  | [] => pure ()
  | node :: nodes => do
    let _ ← evalForm rounds node
    runForms rounds nodes

/-- Runs the forms of the script at a path. -/
def runScriptForms (rounds : Nat) (path : String) (nodes : List Node) : Action Unit := do
  Action.onConsole fun c => c.log .info "risp.repl"
    ("running " ++ (Path.ofString path).text ++ " (" ++ toString nodes.length ++ " forms)")
  runForms rounds nodes

/-- The exit status of a run. -/
def status (succeeded : Bool) : Nat := if succeeded then 0 else 1

/-- Runs the script whose path and content are given; its exit status. -/
def runScript (rounds : Nat) (coloured : Bool) (path : String)
    (content : Except PathError ByteArray) : Action Nat :=
  match content with
  | .error e => do
    Action.onConsole (·.writeError ("Error: cannot read " ++ path ++ ": " ++ e.reason ++ "\n"))
    return status false
  | .ok bytes =>
    match scriptText bytes with
    | none => throw (.fault .undecodableText)
    | some cs => status <$> readAnd coloured cs (runScriptForms rounds path)

/-- A dialogue that an interrupt ends; its exit status. -/
def runDialogue (rounds : Nat) (settings : Settings) (isTerminal : Bool) : Action Nat := fun s =>
  match dialogue rounds settings isTerminal s with
  | .error (.fault .interrupted) s' => (write ("\n" ++ farewell) >>= fun _ => pure (status true)) s'
  | .ok () s' => .ok (status true) s'
  | .error halt s' => .error halt s'

/-- The program: what its arguments ask for, with the content that files have. -/
def program (rounds : Nat) (settings : Settings) (isTerminal : Bool) (args : List String)
    (content : String → Except PathError ByteArray) : Action Nat :=
  match args with
  | [] => runDialogue rounds settings isTerminal
  | path :: _ => runScript rounds (settings.colours isTerminal) path (content path)

end MiniLisp.Session
