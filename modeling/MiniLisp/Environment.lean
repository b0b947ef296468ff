import MiniLisp.EvalError
import MiniLisp.Table

/-!
# The environment

One table of names and their values: there are no inner scopes, and defining a name again
replaces its value.
-/

namespace MiniLisp

/-- The values that names are bound to. -/
abbrev Environment := Table Value

namespace Environment

/-- The value bound to a name. -/
def lookup (env : Environment) (name : String) : Except EvalError Value :=
  match env.get? name with
  | some value => .ok value
  | none => .error (.unbound name)

/-- Binds a name, in place of what it was bound to. -/
def define (env : Environment) (name : String) (value : Value) : Environment :=
  env.insert name value

/-- The environment as it describes itself. -/
def summary (env : Environment) : String := "Environment(" ++ toString env.size ++ " bindings)"

/-- The native functions that every environment begins with. -/
def natives : List Native := [.print, .println, .input]

/-- What is bound before a program runs. -/
def initial : Environment :=
  Table.empty.insertMany
    (natives.map (fun fn => (fn.name, .native fn))
      ++ SpecialForm.all.map (fun form => (form.name, .special form))
      ++ [("true", .bool true), ("false", .bool false)])

end Environment

end MiniLisp
