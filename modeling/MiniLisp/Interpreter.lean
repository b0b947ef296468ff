import MiniLisp.Evaluation
import MiniLisp.Source.Parser

/-!
# Running forms and texts

A form of its own is evaluated on an empty stack, and coming to the end of the stack is an error
like any other. Texts are read whole before their first form is evaluated.
-/

namespace MiniLisp

/-- Why a text came to no end of its own: it cannot be read, or a form halted. -/
inductive Failure where
  | reading (failure : ReadFailure)
  | running (halt : Halt)
deriving DecidableEq, Repr

/-- A halt of a whole form: the end of the stack becomes an error. -/
def Halt.ofForm : Halt → Halt
  | .fault .nestedTooDeeply => .error .nestedTooDeeply
  | halt => halt

variable [Host]

/-- The value of a form of its own. -/
def evalForm (rounds : Nat) (node : Node) : Action Value := fun s =>
  match evaluate rounds Host.stack node s with
  | .ok value s' => .ok value s'
  | .error halt s' => .error halt.ofForm s'

/-- The values of the forms up to the first that halts, why it did, and the state it left. -/
def evalForms (rounds : Nat) : List Node → State → List Value × Option Halt × State
  | [], s => ([], none, s)
  | node :: nodes, s =>
    match evalForm rounds node s with
    | .error halt s' => ([], some halt, s')
    | .ok value s' =>
      let (values, halt, s'') := evalForms rounds nodes s'
      (value :: values, halt, s'')

/-- What came of running a text: the values of its forms up to the first that halts, and why
the run came to no end. -/
structure Run where
  values : List Value
  failure : Option Failure
  state : State

/-- Runs a text. -/
def runText (rounds : Nat) (cs : List Char) (s : State) : Run :=
  match parse cs with
  | .error failure => ⟨[], some (.reading failure), s⟩
  | .ok nodes =>
    let (values, halt, s') := evalForms rounds nodes s
    ⟨values, halt.map .running, s'⟩

/-- The one value of a text: that of its only form, or the list of all. -/
def Run.value (run : Run) : Except Failure Value :=
  match run.failure with
  | some failure => .error failure
  | none => .ok (Value.collapse run.values)

end MiniLisp
