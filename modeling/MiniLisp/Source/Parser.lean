import MiniLisp.Decimal.FloatText
import MiniLisp.Host
import MiniLisp.Source.Cursor

/-!
# Reading forms

A parser cuts tokens from the text as it needs them, always one token ahead of the form it
builds. Nothing is skipped and nothing is guessed: the first token that fits no form ends the
reading.

    form  ::=  number | string | name | operator | '(' form* ')' | ''' name | ''' '(' form* ')'

Every form consumes a token, so the size of what is left bounds every loop.
-/

namespace MiniLisp

/-- Why no form could be read. -/
inductive ReadFailure where
  | malformed (error : SyntaxError)
  | fault (fault : Fault)
deriving DecidableEq, Repr

/-- The token ahead, and the text behind it. -/
structure Parser where
  current : Token
  cursor : Cursor
deriving DecidableEq, Repr

namespace Parser

/-- How much is left to read: the characters behind the token ahead, and that token unless
it is the end. -/
def size (p : Parser) : Nat := p.cursor.rest.length + if p.current.kind = .eof then 0 else 1

/-- The result of reading something: the value and the parser behind it, smaller than
`bound`; or why there is none, and the parser where it was found out. -/
inductive Step (α : Type) (bound : Nat) where
  | done (value : α) (next : Parser) (size_lt : next.size < bound)
  | failed (failure : ReadFailure) (last : Parser)

namespace Step

variable {α β : Type} {bound : Nat}

/-- The step with another value. -/
def map (f : α → β) : Step α bound → Step β bound
  | done value next h => done (f value) next h
  | failed failure last => failed failure last

/-- The step's value, or why there is none. -/
def result : Step α bound → Except ReadFailure α
  | done value _ _ => .ok value
  | failed failure _ => .error failure

/-- The parser after the step. -/
def parser : Step α bound → Parser
  | done _ next _ => next
  | failed _ last => last

end Step

/-! ## Single tokens -/

/-- The parser at a cursor, with the first token cut. -/
def start (c : Cursor) : Except SyntaxError Parser :=
  match c.next with
  | (.ok t, d) => .ok ⟨t, d⟩
  | (.error e, _) => .error e

/-- Goes on to the next token; where none can be cut, the token ahead stays. -/
def advance (p : Parser) : Except SyntaxError Unit × Parser :=
  match p.cursor.next with
  | (.ok t, d) => (.ok (), ⟨t, d⟩)
  | (.error e, d) => (.error e, { p with cursor := d })

theorem size_advance_lt {p q : Parser} (h : p.advance = (.ok (), q)) (hp : p.current.kind ≠ .eof) :
    q.size < p.size := by
  unfold advance at h
  split at h
  · rename_i t d hn
    cases h
    have hle := Cursor.length_rest_next_le hn
    by_cases ht : t.kind = .eof
    · simp only [size, ht, hp, if_true, if_false]
      omega
    · have hlt := Cursor.length_rest_next_lt hn ht
      simp only [size, ht, hp, if_false]
      omega
  · cases h

/-- Takes the token ahead, which is not the end. -/
def take (p : Parser) (hp : p.current.kind ≠ .eof) : Step Unit p.size :=
  match h : p.advance with
  | (.ok (), q) => .done () q (size_advance_lt h hp)
  | (.error e, q) => .failed (.malformed e) q

/-- Takes the token ahead if it is of the kind; the end of the text is one that stays. -/
def expect (p : Parser) (kind : TokenKind) : Except ReadFailure Unit × Parser :=
  if p.current.kind = kind then
    match p.advance with
    | (.ok (), q) => (.ok (), q)
    | (.error e, q) => (.error (.malformed e), q)
  else (.error (.malformed ⟨.expected kind p.current.kind, some p.current.span⟩), p)

/-- Takes the closing parenthesis. -/
def close (p : Parser) : Step Unit p.size :=
  if h : p.current.kind = .closeParen then p.take (by simp [h])
  else .failed (.malformed ⟨.expected .closeParen p.current.kind, some p.current.span⟩) p

/-! ## Forms -/

/-- The node of a token that is a form by itself. -/
def atom (t : Token) : Except ReadFailure Node :=
  match t.kind with
  | .int =>
    match Decimal.readInt? t.content with
    | some n => .ok (.int n)
    | none => .error (.fault (.literalTooLong (Decimal.unsigned t.content).length))
  | .float => .ok (.float (Decimal.readFloat t.content))
  | .string => .ok (.str (String.ofList t.content))
  | .name => .ok (.name (String.ofList t.content))
  | .operator =>
    match Operator.ofText? t.content with
    | some op => .ok (.operator op)
    | none => .error (.malformed ⟨.noForm t.kind, some t.span⟩)
  | _ => .error (.malformed ⟨.noForm t.kind, some t.span⟩)

/-- The node that a quote at a span makes of the node behind it. -/
def quote (span : Span) : Node → Except ReadFailure Node
  | .expr items => .ok (.list items)
  | .name name => .ok (.symbol name)
  | node => .error (.malformed ⟨.unquotable node.kind, some span⟩)

/-- Reads forms up to a token of a kind that `stops`; the end of the text always does. -/
def forms (stops : TokenKind → Bool) (form : (p : Parser) → Step Node p.size) (p : Parser) :
    Step (List Node) (p.size + 1) :=
  if p.current.kind = .eof || stops p.current.kind then .done [] p (by omega)
  else
    match form p with
    | .failed failure q => .failed failure q
    | .done node q _ =>
      match forms stops form q with
      | .failed failure r => .failed failure r
      | .done nodes r _ => .done (node :: nodes) r (by omega)
termination_by p.size

/-- Reads an opening parenthesis, the forms behind it, and the closing one. -/
def list (form : (p : Parser) → Step Node p.size) (p : Parser) : Step (List Node) p.size :=
  if h : p.current.kind = .openParen then
    match p.take (by simp [h]) with
    | .failed failure q => .failed failure q
    | .done () q _ =>
      match forms (· == .closeParen) form q with
      | .failed failure r => .failed failure r
      | .done nodes r _ =>
        match r.close with
        | .failed failure s => .failed failure s
        | .done () s _ => .done nodes s (by omega)
  else .failed (.malformed ⟨.expected .openParen p.current.kind, some p.current.span⟩) p

/-- Reads one form that is nested at most `depth` levels deep, quotes counted as levels. -/
def form : Nat → (p : Parser) → Step Node p.size
  | 0, p => .failed (.fault .nestedTooDeeply) p
  | depth + 1, p =>
    match h : p.current.kind with
    | .openParen => (list (form depth) p).map .expr
    | .closeParen | .eof => .failed (.malformed ⟨.noForm p.current.kind, some p.current.span⟩) p
    | .quote =>
      match p.take (by simp [h]) with
      | .failed failure q => .failed failure q
      | .done () q _ =>
        match form depth q with
        | .failed failure r => .failed failure r
        | .done node r _ =>
          match quote p.current.span node with
          | .ok quoted => .done quoted r (by omega)
          | .error failure => .failed failure r
    | .name | .int | .float | .string | .operator =>
      match p.take (by simp [h]) with
      | .failed failure q => .failed failure q
      | .done () q lt =>
        match atom p.current with
        | .ok node => .done node q lt
        | .error failure => .failed failure q

/-- Reads forms up to the end of the text. -/
def toEnd (depth : Nat) (p : Parser) : Step (List Node) (p.size + 1) :=
  forms (fun _ => false) (form depth) p

end Parser

/-! ## Whole texts -/

/-- What came of reading a text: its forms or why there are none, and how many characters had
been cut into tokens by then. -/
structure Reading where
  result : Except ReadFailure (List Node)
  consumed : Nat

/-- The end of the stack is an error of the text when a whole text is read. -/
def ReadFailure.ofText : ReadFailure → ReadFailure
  | .fault .nestedTooDeeply => .malformed ⟨.nestedTooDeeply, none⟩
  | failure => failure

variable [Host]

/-- Reads a whole text, as deep as the host's stack goes with it. -/
def read (cs : List Char) : Reading :=
  match Parser.start (.ofText cs) with
  | .error e => ⟨.error (.malformed e), 0⟩
  | .ok p =>
    let step := p.toEnd (Host.levels cs)
    ⟨step.result.mapError ReadFailure.ofText, step.parser.cursor.pos⟩

/-- The forms of a text. -/
def parse (cs : List Char) : Except ReadFailure (List Node) := (read cs).result

/-- The tokens of a text that end within its first `consumed` characters. -/
def tokensWithin (cs : List Char) (consumed : Nat) : List Token :=
  (Cursor.ofText cs).tokens.1.takeWhile fun t => t.extent.stop ≤ consumed && t.kind != .eof

end MiniLisp
