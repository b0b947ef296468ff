import MiniLisp.Node
import MiniLisp.Source.Token

/-!
# Errors of reading

Why a text is no program, and where. The wording of a message is a function of its cause.
-/

namespace MiniLisp

/-- Why a text cannot be read. -/
inductive SyntaxCause where
  /-- No token begins with this character. -/
  | unexpectedCharacter (c : Char)
  | unterminatedString
  /-- One kind of token had to follow, and another did. -/
  | expected (wanted found : TokenKind)
  /-- No form begins with this token. -/
  | noForm (found : TokenKind)
  /-- Only names and parenthesised forms can be quoted. -/
  | unquotable (kind : NodeKind)
  | nestedTooDeeply
deriving DecidableEq, Repr

/-- An error of reading: its cause, and where it is if it is at one place. -/
structure SyntaxError where
  cause : SyntaxCause
  span : Option Span
deriving DecidableEq, Repr

/-- What the error's message says. -/
def SyntaxCause.message : SyntaxCause → String
  | unexpectedCharacter c => "did not expect character " ++ Text.quoted [c]
  | unterminatedString => "unterminated string literal"
  | expected wanted found => "expected " ++ wanted.label ++ ", found " ++ found.label
  | noForm found => "unexpected " ++ found.label ++ " while parsing atom"
  | unquotable kind => kind.label ++ " cannot be quoted"
  | nestedTooDeeply => "expression nested too deeply"

namespace SyntaxError

/-- The error's message without its place. -/
def message (e : SyntaxError) : String := e.cause.message

/-- The error as it is reported. -/
def report (e : SyntaxError) : String :=
  match e.span with
  | none => "SyntaxError: " ++ e.message
  | some s =>
    "SyntaxError: " ++ e.message ++ " (at " ++ toString s.start ++ ".." ++ toString s.stop ++ ")"

/-- The error of the same text with `n` more characters before it. -/
def shift (e : SyntaxError) (n : Nat) : SyntaxError := ⟨e.cause, e.span.map (·.shift n)⟩

end SyntaxError

end MiniLisp
