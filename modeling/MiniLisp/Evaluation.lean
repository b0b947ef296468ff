import MiniLisp.Console
import MiniLisp.Environment
import MiniLisp.Value.Relation
import MiniLisp.Value.Text

/-!
# Evaluation

`evaluate` walks a form and gives its value. Evaluating may bind names and use the console,
also when it ends without a value. Recursion follows the form; only the loop of `while` has no
bound of its own, so a number of rounds is given from outside, and a loop that uses them up
stops as one that has not ended.

Whatever is called on the way, also to print a value or to compare two, stands on the stack of the
evaluation, and has only those frames that are left there.
-/

namespace MiniLisp

/-- What evaluation reads and changes. -/
structure State where
  env : Environment
  console : Console

/-- A computation that may change the state and may halt without a value. -/
abbrev Action (α : Type) := EStateM Halt State α

namespace Action

/-- Halts with an error of the language. -/
def fail {α : Type} (e : EvalError) : Action α := throw (.error e)

/-- The value of a computation that needs no state. -/
def ofExcept {α : Type} : Except Halt α → Action α
  | .ok a => pure a
  | .error halt => throw halt

/-- The value of a computation that can only have a fault. -/
def ofFaulty {α : Type} : Except Fault α → Action α
  | .ok a => pure a
  | .error f => throw (.fault f)

/-- What is done in a call that is made with `room` frames free. -/
def inside [Host] {α : Type} (call : Call) (room : Nat) (run : Nat → Action α) : Action α :=
  Host.inside call room (throw (.fault .nestedTooDeeply)) run

/-- Changes the console. -/
def onConsole (f : Console → Console) : Action Unit :=
  modify fun s => { s with console := f s.console }

/-- The value bound to a name. -/
def lookup (name : String) : Action Value := do
  match (← get).env.lookup name with
  | .ok value => pure value
  | .error e => fail e

/-- Binds a name. -/
def define (name : String) (value : Value) : Action Unit :=
  modify fun s => { s with env := s.env.define name value }

/-- Runs rounds of `body` as long as `test` holds, `rounds` at most; the result is that of the
last round, or `last` if there was none. -/
def whileTrue (test : Action Bool) (body : Action Value) : Nat → Value → Action Value
  | 0, _ => throw .outOfRounds
  | rounds + 1, last => do
    if ← test then
      let result ← body
      whileTrue test body rounds result
    else return last

end Action

variable [Host]

/-! ## Quoted forms -/

namespace Node

mutual

/-- A form as data, made with `room` frames free: names become symbols and parenthesised forms
lists. -/
def quotedWithin (room : Nat) (node : Node) : Except Fault Value :=
  Host.inside (.quote node.kind) room (.error .nestedTooDeeply) fun room =>
    match node with
    | .name x | .symbol x => .ok (.symbol x)
    | .expr items | .list items => (quotedEachWithin room items).map .list
    | .int n => .ok (.int n)
    | .float x => .ok (.float x)
    | .str s => .ok (.str s)
    | .operator op => .ok (.operator op)
    | .foreign text => .error (.foreignItem text)

/-- Several forms as data. -/
def quotedEachWithin (room : Nat) : List Node → Except Fault (List Value)
  | [] => .ok []
  | node :: nodes => do
    let value ← quotedWithin room node
    return value :: (← quotedEachWithin room nodes)

end

/-- A form as data. -/
def quoted (node : Node) : Except Fault Value := node.quotedWithin Host.stack

end Node

/-! ## Native functions -/

namespace Native

/-- Prints texts with a space between any two. -/
def printAll (room : Nat) (args : List Value) : Action Unit := do
  let text ← Action.ofFaulty (Value.displayAllWithin room args)
  Action.onConsole (·.write text)

/-- Reads a line without its end. -/
def readText : Action String := do
  let s ← get
  let (read, console) := s.console.readLine
  set { s with console }
  match read with
  | .line cs => return String.ofList (Text.dropLineEnd cs)
  | .ended => Action.fail .inputEnded
  | .failed reason => Action.fail (.inputFailed reason)
  | .interrupted => throw (.fault .interrupted)

/-- The results of a native function, with `room` frames free. -/
def run (room : Nat) : Native → List Value → Action (List Value)
  | .print, args => do
    printAll room args
    return []
  | .println, args => do
    printAll room args
    Action.onConsole (·.write "\n")
    return []
  | .input, args => do
    printAll room args
    let text ← readText
    return [.str text]
  | .echo _, args => return args

/-- The value of a native function's results, if it is called with `room` frames free. -/
def callWithin (room : Nat) (fn : Native) (args : List Value) : Action Value :=
  Action.inside (.native fn) room fun room => Value.collapse <$> fn.run room args

/-- The value of a native function's results. -/
def call (fn : Native) (args : List Value) : Action Value := fn.callWithin Host.stack args

end Native

/-! ## Forms -/

/-- The truth value that a form's condition has. -/
def conditionOf (form : SpecialForm) : Value → Action Bool
  | .bool b => pure b
  | v => Action.fail (.conditionKind form v.kind)

/-- The truth value of a form's condition, which `run` evaluates, with `room` frames free. -/
def testWithin (form : SpecialForm) (room : Nat) (run : Nat → Action Value) : Action Bool :=
  Action.inside .condition room fun room => run room >>= conditionOf form

/-- The log's line for a special form that begins. -/
def logSpecialForm (form : SpecialForm) (arguments : Nat) : Action Unit :=
  Action.onConsole fun c => c.log .debug "risp.evaluation.evaluator"
    ("special form " ++ form.name ++ " with " ++ toString arguments ++ " argument(s)")

mutual

/-- The value of a form that is evaluated with `room` frames free. -/
def evaluate (rounds room : Nat) (node : Node) : Action Value :=
  Action.inside (.evaluate node.kind) room fun room =>
    match node with
    | .name x => Action.lookup x
    | .int n => pure (.int n)
    | .float x => pure (.float x)
    | .str s => pure (.str s)
    | .operator op => pure (.operator op)
    | .symbol x => pure (.symbol x)
    | .list items => Action.ofFaulty (Node.quotedWithin room (.list items))
    | .expr items => evaluateForm rounds room items
    | .foreign text => throw (.fault (.foreignItem text))

/-- The value of a head with arguments. A special form gets its arguments as they are written;
whatever else the head is, the arguments are evaluated before it is called. -/
def evaluateForm (rounds room : Nat) : List Node → Action Value
  | [] => Action.fail .emptyExpression
  | head :: tail => do
    match ← evaluate rounds room head with
    | .special form =>
      logSpecialForm form tail.length
      Action.inside (.special form) room fun room =>
        match form with
        | .list => .list <$> evaluateEach rounds room tail
        | .block => evaluateBlock rounds room .null tail
        | .set =>
          match tail with
          | [.name x, source] => do
            let value ← evaluate rounds room source
            Action.define x value
            return value
          | [target, _] => Action.fail (.setTarget target.kind)
          | _ => Action.fail (.argumentCount .set tail.length)
        | .cond =>
          match tail with
          | [test, yes] => do
            if ← testWithin .cond room fun room => evaluate rounds room test then
              evaluate rounds room yes
            else return .null
          | [test, yes, no] => do
            if ← testWithin .cond room fun room => evaluate rounds room test then
              evaluate rounds room yes
            else evaluate rounds room no
          | _ => Action.fail (.argumentCount .cond tail.length)
        | .loop =>
          match tail with
          | [] => Action.fail (.argumentCount .loop 0)
          | test :: body =>
            Action.whileTrue (testWithin .loop room fun room => evaluate rounds room test)
              (Action.inside (.special .block) room fun room =>
                evaluateBlock rounds room .null (test :: body)) rounds .null
    | fn => do
      let args ← Action.inside .arguments room fun room => evaluateEach rounds room tail
      match fn with
      | .native native => native.callWithin room args
      | .operator op => Action.ofExcept (Value.applyOperatorWithin room op args)
      | other => Action.fail (.notCallable other.kind)

/-- The values of several forms, from first to last. -/
def evaluateEach (rounds room : Nat) : List Node → Action (List Value)
  | [] => pure []
  | node :: nodes => do
    let value ← evaluate rounds room node
    let values ← evaluateEach rounds room nodes
    return value :: values

/-- The value of the last of several forms, all evaluated in order; `last` if there is none. -/
def evaluateBlock (rounds room : Nat) (last : Value) : List Node → Action Value
  | [] => pure last
  | node :: nodes => do
    let value ← evaluate rounds room node
    evaluateBlock rounds room value nodes

end

end MiniLisp
