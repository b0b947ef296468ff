import MiniLisp.Source.Span

/-!
# Tokens

A token is a piece of a program's text: its kind, where it stands, and its content.
-/

namespace MiniLisp

/-- The kinds of token. -/
inductive TokenKind where
  | name | int | float | string | openParen | closeParen | quote | operator | eof
deriving DecidableEq, Repr

namespace TokenKind

/-- The kind's name, as messages show it. -/
def label : TokenKind → String
  | name => "Name"
  | int => "Int"
  | float => "Float"
  | string => "String"
  | openParen => "OpenParen"
  | closeParen => "CloseParen"
  | quote => "Quote"
  | operator => "Operator"
  | eof => "EOF"

/-- Every kind, once. -/
def all : List TokenKind :=
  [name, int, float, string, openParen, closeParen, quote, operator, eof]

/-- The kind with a given name, or the fault that there is none. -/
def ofLabel (text : String) : Except Fault TokenKind :=
  match all.find? (·.label == text) with
  | some kind => .ok kind
  | none => .error (.unknownTokenKind text)

end TokenKind

/-- A token. The span and the content of a string leave out its quotes. -/
structure Token where
  kind : TokenKind
  span : Span
  content : List Char
deriving DecidableEq, Repr

namespace Token

/-- The token at the end of a text of `length` characters. -/
def atEnd (length : Nat) : Token := ⟨.eof, Span.covering length 0, []⟩

/-- The token's characters as they stand in the text, the quotes of a string included. -/
def raw (t : Token) : List Char :=
  if t.kind = .string then '"' :: t.content ++ ['"'] else t.content

/-- Where the token stands in the text, the quotes of a string included. -/
def extent (t : Token) : Span :=
  if t.kind = .string then
    ⟨t.span.start - 1, t.span.stop + 1, by have := t.span.start_le_stop; omega⟩
  else t.span

end Token

end MiniLisp
