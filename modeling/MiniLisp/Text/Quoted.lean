import MiniLisp.Text.Printable

/-!
# Quoted texts

Two ways to write a text on one line between quotes. `quoted` is for messages: it shows
printable characters as they are and prefers apostrophes. `literal` is for values: it writes
double quotes, escapes what a line of text cannot hold, and keeps everything else.
-/

namespace MiniLisp.Text

/-- The last `width` hexadecimal digits of a number. -/
def hexDigits : Nat → Nat → List Char
  | 0, _ => []
  | width + 1, n => hexDigits width (n / 16) ++ [Nat.digitChar (n % 16)]

/-! ## Quoted in a message -/

/-- A character by its code point, in as few of two, four or eight digits as it needs. -/
def codeEscape (c : Char) : List Char :=
  if c.toNat < 0x100 then '\\' :: 'x' :: hexDigits 2 c.toNat
  else if c.toNat < 0x10000 then '\\' :: 'u' :: hexDigits 4 c.toNat
  else '\\' :: 'U' :: hexDigits 8 c.toNat

/-- One character of a text quoted between two `mark`s. -/
def quotedChar (mark c : Char) : List Char :=
  if c = mark || c = '\\' then ['\\', c]
  else if c = '\n' then ['\\', 'n']
  else if c = '\r' then ['\\', 'r']
  else if c = '\t' then ['\\', 't']
  else if isPrintable c then [c]
  else codeEscape c

/-- The mark around a text: an apostrophe, or a double quote around a text that has
apostrophes and no double quote. -/
def quoteMark (cs : List Char) : Char :=
  if cs.contains '\'' && !cs.contains '"' then '"' else '\''

/-- A text as a message shows it. -/
def quoted (cs : List Char) : String :=
  String.ofList (quoteMark cs :: cs.flatMap (quotedChar (quoteMark cs)) ++ [quoteMark cs])

/-! ## Written as a literal -/

/-- One character of a literal. -/
def literalChar (c : Char) : List Char :=
  if c = '"' || c = '\\' then ['\\', c]
  else if c = '\n' then ['\\', 'n']
  else if c = '\r' then ['\\', 'r']
  else if c = '\t' then ['\\', 't']
  else if c = '\x08' then ['\\', 'b']
  else if c = '\x0c' then ['\\', 'f']
  else if c.toNat < 0x20 then '\\' :: 'u' :: hexDigits 4 c.toNat
  else [c]

/-- A text as a literal: between double quotes, with the quote, the backslash and the
control characters escaped. -/
def literal (cs : List Char) : List Char := '"' :: cs.flatMap literalChar ++ ['"']

example : quoted "it's".toList = "\"it's\"" := by decide +kernel
example : quoted "'\"\n".toList = "'\\'\"\\n'" := by decide +kernel
example : quoted "\ufeff\x1b".toList = "'\\ufeff\\x1b'" := by decide +kernel
example : literal "\x01\té".toList = "\"\\u0001\\té\"".toList := by decide +kernel

end MiniLisp.Text
