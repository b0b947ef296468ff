import MiniLisp.Source.SyntaxError
import MiniLisp.Text.Blank

/-!
# Cutting a text into tokens

A cursor stands between two characters of a text. `Cursor.next` skips blanks and takes the
lexeme after them; `Cursor.tokens` does so up to the end, or up to the first place where no
lexeme begins.
-/

namespace MiniLisp

/-! ## Characters -/

/-- The decimal digits. -/
def isDigit (c : Char) : Bool := '0' ≤ c && c ≤ '9'

/-- The characters a name begins with. -/
def isNameStart (c : Char) : Bool :=
  ('a' ≤ c && c ≤ 'z') || ('A' ≤ c && c ≤ 'Z') || c == '_'

/-- The characters a name goes on with. -/
def isNameChar (c : Char) : Bool := isNameStart c || isDigit c

/-- The signs a number may begin with. -/
def isSign (c : Char) : Bool := c == '+' || c == '-'

/-- The kind of the tokens that are one character long, signs apart. -/
def singleKind? : Char → Option TokenKind
  | '(' => some .openParen
  | ')' => some .closeParen
  | '\'' => some .quote
  | '*' | '/' | '>' | '<' | '=' => some .operator
  | _ => none

/-! ## Lexemes -/

/-- The characters of one token, as they stand in the text. -/
structure Lexeme where
  kind : TokenKind
  raw : List Char
deriving DecidableEq, Repr

namespace Lexeme

/-- The number at the head of a text that begins with a digit. -/
def number (cs : List Char) : Lexeme :=
  let whole := cs.takeWhile isDigit
  match cs.dropWhile isDigit with
  | '.' :: rest => ⟨.float, whole ++ '.' :: rest.takeWhile isDigit⟩
  | _ => ⟨.int, whole⟩

/-- The string that an opening quote and `cs` begin with, if a quote closes it. -/
def string? (cs : List Char) : Option Lexeme :=
  if cs.contains '"' then some ⟨.string, '"' :: cs.takeWhile (· ≠ '"') ++ ['"']⟩ else none

/-- The lexeme at the head of a text. -/
def first? : List Char → Option Lexeme
  | [] => none
  | c :: rest =>
    if isDigit c then some (number (c :: rest))
    else if isNameStart c then some ⟨.name, c :: rest.takeWhile isNameChar⟩
    else if isSign c then
      if rest.head?.any isDigit then some ⟨(number rest).kind, c :: (number rest).raw⟩
      else some ⟨.operator, [c]⟩
    else if c = '"' then string? rest
    else (singleKind? c).map fun kind => ⟨kind, [c]⟩

/-- The token of a lexeme that begins at an offset. -/
def token (l : Lexeme) (pos : Nat) : Token :=
  if l.kind = .string then
    ⟨l.kind, Span.covering (pos + 1) (l.raw.length - 2), (l.raw.drop 1).dropLast⟩
  else ⟨l.kind, Span.covering pos l.raw.length, l.raw⟩

theorem number_raw_ne_nil {c : Char} (cs : List Char) (h : isDigit c = true) :
    (number (c :: cs)).raw ≠ [] := by
  unfold number
  simp only [List.takeWhile_cons, h, if_true]
  split <;> simp

theorem raw_ne_nil_of_first? {cs : List Char} {l : Lexeme} (h : first? cs = some l) :
    l.raw ≠ [] := by
  unfold first? at h
  split at h
  · exact nomatch h
  · split at h
    · cases h
      exact number_raw_ne_nil _ ‹_›
    · split at h
      · cases h
        simp
      · split at h
        · split at h <;> cases h <;> simp
        · split at h
          · unfold string? at h
            split at h
            · cases h
              simp
            · exact nomatch h
          · obtain ⟨_, _, rfl⟩ := Option.map_eq_some_iff.1 h
            simp

end Lexeme

/-! ## Cursors -/

/-- A place in a text: how many characters are before it, and which follow. -/
structure Cursor where
  pos : Nat
  rest : List Char
deriving DecidableEq, Repr

namespace Cursor

/-- The cursor before the first character. -/
def ofText (cs : List Char) : Cursor := ⟨0, cs⟩

/-- Whether no character follows. -/
def atEnd (c : Cursor) : Bool := c.rest.isEmpty

/-- The character that follows. -/
def current? (c : Cursor) : Option Char := c.rest.head?

/-- The cursor `n` characters on, or at the end if fewer follow. -/
def skip (c : Cursor) (n : Nat) : Cursor := ⟨c.pos + (c.rest.take n).length, c.rest.drop n⟩

/-- The cursor behind the characters that satisfy `p`. -/
def skipWhile (c : Cursor) (p : Char → Bool) : Cursor := c.skip (c.rest.takeWhile p).length

/-- The span of the characters that satisfy `p`, and the cursor behind them. -/
def takeWhile (c : Cursor) (p : Char → Bool) : Span × Cursor :=
  (Span.covering c.pos (c.rest.takeWhile p).length, c.skipWhile p)

/-- The token behind the blanks that follow, and the cursor behind it. Where no token begins,
the cursor stays before the offending character; a string that nothing closes is taken whole. -/
def next (start : Cursor) : Except SyntaxError Token × Cursor :=
  let c := start.skipWhile Text.isBlank
  match c.rest with
  | [] => (.ok (Token.atEnd c.pos), c)
  | ch :: rest =>
    match Lexeme.first? (ch :: rest) with
    | some l => (.ok (l.token c.pos), c.skip l.raw.length)
    | none =>
      if ch = '"' then
        (.error ⟨.unterminatedString, some (Span.covering c.pos c.rest.length)⟩,
          c.skip c.rest.length)
      else (.error ⟨.unexpectedCharacter ch, some (Span.covering c.pos 1)⟩, c)

@[simp] theorem rest_skip (c : Cursor) (n : Nat) : (c.skip n).rest = c.rest.drop n := rfl

theorem length_rest_skipWhile_le (c : Cursor) (p : Char → Bool) :
    (c.skipWhile p).rest.length ≤ c.rest.length := by
  simp [skipWhile]

/-- No token puts characters back. -/
theorem length_rest_next_le {c d : Cursor} {r : Except SyntaxError Token} (h : c.next = (r, d)) :
    d.rest.length ≤ c.rest.length := by
  have hle := c.length_rest_skipWhile_le Text.isBlank
  unfold next at h
  simp only at h
  split at h
  · cases h
    exact hle
  · split at h
    · cases h
      simp only [rest_skip, List.length_drop]
      omega
    · split at h <;> cases h
      · simp
      · exact hle

/-- A token other than the last is made of characters that the cursor then has behind it. -/
theorem length_rest_next_lt {c d : Cursor} {t : Token} (h : c.next = (.ok t, d))
    (ht : t.kind ≠ .eof) : d.rest.length < c.rest.length := by
  have hle := c.length_rest_skipWhile_le Text.isBlank
  unfold next at h
  simp only at h
  split at h
  · cases h
    exact absurd rfl ht
  · rename_i ch rest heq
    split at h
    · rename_i l hl
      cases h
      have hpos := List.length_pos_iff.2 (Lexeme.raw_ne_nil_of_first? hl)
      have hlen := congrArg List.length heq
      simp only [List.length_cons] at hlen
      simp only [rest_skip, List.length_drop]
      omega
    · split at h <;> cases h

/-- Every token from the cursor on, the one at the end of the text included, and the error
that stops them short if there is one. -/
def tokens (c : Cursor) : List Token × Option SyntaxError :=
  match _h : c.next with
  | (.error e, _) => ([], some e)
  | (.ok t, d) =>
    if _ht : t.kind = .eof then ([t], none)
    else
      let (ts, e) := tokens d
      (t :: ts, e)
termination_by c.rest.length
decreasing_by exact length_rest_next_lt _h _ht

end Cursor

end MiniLisp
