import MiniLisp.Document.Index
import MiniLisp.Document.Word

/-!
# Open documents

The documents that an editor has open, each with the index of its latest text, and the answers
that the editor gets about them.
-/

namespace MiniLisp.Document

/-- The name under which errors are published. -/
def sourceName : String := "risp-ls"

/-- What is said of each name that is bound from the start, in the order of completion. -/
def signatures : List (String × String) :=
  [("print", "(print value...) -- write values separated by spaces"),
    ("println", "(println value...) -- like print, followed by a newline"),
    ("input", "(input prompt...) -- print the prompt and read one line"),
    ("set", "(set name expr) -- bind name to the value of expr"),
    ("list", "(list expr...) -- evaluate each expr into a list"),
    ("block", "(block expr...) -- evaluate in order, return the last value"),
    ("if", "(if cond then [else]) -- cond must be a bool"),
    ("while", "(while cond body...) -- loop while cond is true"),
    ("true", "true -- the boolean constant"),
    ("false", "false -- the boolean constant")]

/-- An open document: its text and the index of that text. -/
structure Entry where
  text : List Char
  index : Index

/-- The open documents by their addresses. -/
abbrev Store := Table Entry

/-- The errors published for a document, in place of those published before. -/
structure Publication where
  address : String
  problems : List Problem
deriving DecidableEq, Repr

/-- A proposal for completing a name. -/
inductive Completion where
  | builtin (name signature : String)
  | definition (name : String)
deriving DecidableEq, Repr

/-- A name set in a document, between two positions of one line. -/
structure SymbolRange where
  name : String
  start : Position
  stop : Position
deriving DecidableEq, Repr

namespace Store

variable [Host]

/-- Opens a document, or takes its new text. -/
def update (store : Store) (address : String) (text : List Char) :
    Except Fault (Store × Publication) := do
  let index ← Document.index text
  return (store.insert address ⟨text, index⟩, ⟨address, index.problem.toList⟩)

/-- Closes a document. -/
def close (store : Store) (address : String) : Store × Publication :=
  (store.erase address, ⟨address, []⟩)

/-- What is said of a name in a document. -/
def describe (entry : Entry) (name : String) : Option String :=
  match signatures.lookup name with
  | some signature => some signature
  | none => (entry.index.symbols.get? name).map fun p =>
    name ++ " (set at " ++ toString (p.line + 1) ++ ":" ++ toString (p.column + 1) ++ ")"

/-- What is said of the name at a position. -/
def hover (store : Store) (address : String) (line column : Int) :
    Except Fault (Option String) :=
  match store.get? address with
  | none => .ok none
  | some entry => do
    let word ← wordAt entry.text line column
    return word.bind fun cs => describe entry (String.ofList cs)

/-- The names that can be completed in a document; one that is not open has only those that
are bound from the start. -/
def completions (store : Store) (address : String) : List Completion :=
  signatures.map (fun (name, signature) => .builtin name signature)
    ++ match store.get? address with
      | none => []
      | some entry => entry.index.symbols.names.map .definition

/-- The names set in an open document, each with the place where it is set first. -/
def symbols (store : Store) (address : String) : Option (List SymbolRange) :=
  (store.get? address).map fun entry =>
    entry.index.symbols.entries.map fun (name, p) =>
      ⟨name, p, ⟨p.line, p.column + name.length⟩⟩

end Store

end MiniLisp.Document
