import MiniLisp.Document.Store

/-!
# Events of an editor

An editor tells when a document is opened, when its text has changed, and when it is closed. Each
event is handled by itself: one that cannot be handled leaves everything as it was.
-/

namespace MiniLisp.Document

/-- What an editor tells of a document. -/
inductive Event where
  | opened (address : String) (text : List Char)
  /-- The document has another text, of which this is the whole. -/
  | changed (address : String) (text : List Char)
  | closed (address : String)
deriving DecidableEq, Repr

namespace Event

/-- The document that the event is about. -/
def address : Event → String
  | opened address _ | changed address _ | closed address => address

/-- The text that the document has from the event on, unless it is closed. -/
def text? : Event → Option (List Char)
  | opened _ text | changed _ text => some text
  | closed _ => none

end Event

/-- The open documents, and what has been published, in order. -/
structure Workspace where
  store : Store
  published : List Publication

namespace Workspace

/-- No document is open and nothing has been published. -/
def empty : Workspace := ⟨Table.empty, []⟩

/-- The workspace with other documents, and with something published of one of them. -/
def take (w : Workspace) (result : Store × Publication) : Workspace :=
  ⟨result.1, w.published ++ [result.2]⟩

variable [Host]

/-- Handles an event. -/
def handle (w : Workspace) : Event → Except Fault Workspace
  | .opened address text | .changed address text => w.take <$> w.store.update address text
  | .closed address => .ok (w.take (w.store.close address))

/-- The workspace after an event. -/
def after (w : Workspace) (e : Event) : Workspace :=
  match w.handle e with
  | .ok next => next
  | .error _ => w

/-- The workspace after some events, from the first on. -/
def afterAll (events : List Event) : Workspace := events.foldl after empty

/-- The errors that were last published for a document, if any were. -/
def latestProblems? (w : Workspace) (address : String) : Option (List Problem) :=
  (w.published.reverse.find? (·.address == address)).map (·.problems)

end Workspace

end MiniLisp.Document
