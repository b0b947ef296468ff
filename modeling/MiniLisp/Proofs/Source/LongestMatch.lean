import MiniLisp.Proofs.Source.TokenGrammar

/-!
# Longest match

The next token behind a cursor is the longest prefix in the token grammar of what follows the
blanks: `Cursor.next_longest_match` says so for every offset of every text, with the error
where no token begins.

`Cursor.next_cases` is what one token can be, and `Cursor.Cuts` the run that cuts tokens one
after the other: facts about all tokens of a text are inductions over it.
-/

namespace MiniLisp

namespace Lexeme

/-! ## The token of a lexeme -/

@[simp] theorem token_kind (l : Lexeme) (pos : Nat) : (l.token pos).kind = l.kind := by
  unfold token
  split <;> rfl

theorem token_raw {l : Lexeme} (h : Fits l.kind l.raw) (pos : Nat) : (l.token pos).raw = l.raw := by
  unfold token
  split
  · rename_i hkind
    rw [hkind] at h
    obtain ⟨cs, _, hraw⟩ := h.string_inv
    simp [Token.raw, hkind, hraw]
  · rename_i hkind
    simp [Token.raw, hkind]

theorem token_extent {l : Lexeme} (h : Fits l.kind l.raw) (pos : Nat) :
    (l.token pos).extent = Span.covering pos l.raw.length := by
  unfold token
  split
  · rename_i hkind
    rw [hkind] at h
    obtain ⟨cs, _, hraw⟩ := h.string_inv
    simp only [Token.extent, hkind, if_true, Span.covering, Span.mk.injEq, hraw, List.length_append,
      List.length_cons, List.length_nil]
    omega
  · rename_i hkind
    simp [Token.extent, hkind]

end Lexeme

/-- A token is known from its kind, its characters and where it stands. -/
theorem Token.eq_of_raw_of_extent {t u : Token} (hkind : t.kind = u.kind) (hraw : t.raw = u.raw)
    (hextent : t.extent = u.extent) : t = u := by
  obtain ⟨kind, ⟨start, stop, _⟩, content⟩ := t
  obtain ⟨kind', ⟨start', stop', _⟩, content'⟩ := u
  obtain rfl : kind = kind' := hkind
  by_cases hs : kind = .string
  · simp only [Token.raw, hs, if_true, List.cons_append, List.cons.injEq, true_and,
      List.append_left_inj] at hraw
    simp only [Token.extent, hs, if_true, Span.mk.injEq] at hextent
    obtain rfl : start = start' := by omega
    obtain rfl : stop = stop' := by omega
    rw [hraw]
  · simp only [Token.raw, hs, if_false] at hraw
    simp only [Token.extent, hs, if_false, Span.mk.injEq] at hextent
    obtain ⟨rfl, rfl⟩ := hextent
    rw [hraw]

namespace Cursor

/-! ## The next token -/

/-- The error at a character where no token begins; `n` characters follow it. -/
def misfit (pos : Nat) (c : Char) (n : Nat) : SyntaxError :=
  if c = '"' then ⟨.unterminatedString, some (Span.covering pos (n + 1))⟩
  else ⟨.unexpectedCharacter c, some (Span.covering pos 1)⟩

/-- What the next token can be: the end of the text, the lexeme behind the blanks, or none. -/
theorem next_cases (start : Cursor) :
    ((start.skipWhile Text.isBlank).rest = [] ∧
      start.next = (.ok (Token.atEnd (start.skipWhile Text.isBlank).pos),
        start.skipWhile Text.isBlank)) ∨
    (∃ l, Lexeme.first? (start.skipWhile Text.isBlank).rest = some l ∧
      start.next = (.ok (l.token (start.skipWhile Text.isBlank).pos),
        (start.skipWhile Text.isBlank).skip l.raw.length)) ∨
    ∃ c cs, (start.skipWhile Text.isBlank).rest = c :: cs ∧ Lexeme.first? (c :: cs) = none ∧
      start.next.1 = .error (misfit (start.skipWhile Text.isBlank).pos c cs.length) := by
  unfold next
  simp only
  split
  · rename_i heq
    exact .inl ⟨heq, rfl⟩
  · rename_i c cs heq
    split
    · rename_i l hl
      exact .inr (.inl ⟨l, by rw [heq, hl], rfl⟩)
    · rename_i hl
      refine .inr (.inr ⟨c, cs, heq, hl, ?_⟩)
      unfold misfit
      split
      · simp [heq]
      · rfl

theorem next_eq_token_iff {start d : Cursor} {t : Token} (ht : t.kind ≠ .eof) :
    start.next = (.ok t, d) ↔ ∃ l, Lexeme.first? (start.skipWhile Text.isBlank).rest = some l ∧
      t = l.token (start.skipWhile Text.isBlank).pos ∧
      d = (start.skipWhile Text.isBlank).skip l.raw.length := by
  rcases start.next_cases with ⟨hrest, hnext⟩ | ⟨l, hl, hnext⟩ | ⟨c, cs, hrest, hnone, hnext⟩
  · rw [hnext, hrest]
    constructor
    · intro h
      cases h
      exact absurd rfl ht
    · rintro ⟨l, hl, _⟩
      cases hl
  · rw [hnext, hl]
    constructor
    · intro h
      cases h
      exact ⟨l, rfl, rfl, rfl⟩
    · rintro ⟨l', hl', rfl, rfl⟩
      cases hl'
      rfl
  · rw [hrest, hnone]
    constructor
    · intro h
      rw [h] at hnext
      cases hnext
    · rintro ⟨l, hl, _⟩
      cases hl

theorem next_eq_atEnd_iff {start d : Cursor} {t : Token} (ht : t.kind = .eof) :
    start.next = (.ok t, d) ↔ (start.skipWhile Text.isBlank).rest = [] ∧
      t = Token.atEnd (start.skipWhile Text.isBlank).pos ∧ d = start.skipWhile Text.isBlank := by
  rcases start.next_cases with ⟨hrest, hnext⟩ | ⟨l, hl, hnext⟩ | ⟨c, cs, hrest, hnone, hnext⟩
  · rw [hnext]
    constructor
    · intro h
      cases h
      exact ⟨hrest, rfl, rfl⟩
    · rintro ⟨_, rfl, rfl⟩
      rfl
  · rw [hnext]
    constructor
    · intro h
      cases h
      exact absurd ((Lexeme.token_kind l _).symm.trans ht) (Lexeme.first?_sound hl).1.kind_ne_eof
    · rintro ⟨hrest, _⟩
      rw [hrest] at hl
      cases hl
  · rw [hrest]
    constructor
    · intro h
      rw [h] at hnext
      cases hnext
    · rintro ⟨h, _⟩
      cases h

theorem next_eq_error_iff {start : Cursor} {e : SyntaxError} :
    start.next.1 = .error e ↔ ∃ c cs, (start.skipWhile Text.isBlank).rest = c :: cs ∧
      Lexeme.first? (c :: cs) = none ∧
      e = misfit (start.skipWhile Text.isBlank).pos c cs.length := by
  rcases start.next_cases with ⟨hrest, hnext⟩ | ⟨l, hl, hnext⟩ | ⟨c, cs, hrest, hnone, hnext⟩
  · rw [hnext, hrest]
    constructor
    · intro h
      cases h
    · rintro ⟨c, cs, h, _⟩
      cases h
  · rw [hnext]
    constructor
    · intro h
      cases h
    · rintro ⟨c, cs, hrest, hnone, _⟩
      rw [hrest, hnone] at hl
      cases hl
  · rw [hnext, hrest]
    constructor
    · intro h
      cases h
      exact ⟨c, cs, rfl, hnone, rfl⟩
    · rintro ⟨c', cs', h, _, rfl⟩
      cases h
      rfl

/-! ## Cursors of a text -/

/-- The cursor stands in the text: what follows it is the text from its offset on. -/
structure Within (c : Cursor) (cs : List Char) : Prop where
  pos_le : c.pos ≤ cs.length
  rest_eq : c.rest = cs.drop c.pos

theorem pos_skip (c : Cursor) (n : Nat) : (c.skip n).pos = c.pos + min n c.rest.length := by
  rw [Cursor.skip, List.length_take]

theorem takeWhile_append_skipWhile (c : Cursor) (p : Char → Bool) :
    c.rest.takeWhile p ++ (c.skipWhile p).rest = c.rest :=
  List.prefix_iff_eq_append.mp (List.takeWhile_prefix p)

theorem within_ofText (cs : List Char) : (ofText cs).Within cs := ⟨Nat.zero_le _, rfl⟩

theorem Within.skip {c : Cursor} {cs : List Char} (h : c.Within cs) (n : Nat) :
    (c.skip n).Within cs := by
  obtain ⟨hle, hrest⟩ := h
  constructor
  · rw [pos_skip, hrest, List.length_drop]
    omega
  · rw [pos_skip, rest_skip, hrest, List.drop_drop, List.length_drop]
    by_cases hn : n ≤ cs.length - c.pos
    · rw [Nat.min_eq_left hn]
    · rw [Nat.min_eq_right (by omega), List.drop_eq_nil_of_le (by omega),
        List.drop_eq_nil_of_le (by omega)]

theorem Within.length_rest {c : Cursor} {cs : List Char} (h : c.Within cs) :
    c.rest.length = cs.length - c.pos := by
  rw [h.rest_eq, List.length_drop]

/-! ## Runs -/

/-- The run that cuts the tokens behind a cursor one after the other: its tokens, and the
error that stops it short. -/
inductive Cuts : Cursor → List Token → Option SyntaxError → Prop where
  | atEnd {c d : Cursor} {t : Token} (h : c.next = (.ok t, d)) (ht : t.kind = .eof) :
      Cuts c [t] none
  | token {c d : Cursor} {t : Token} {ts : List Token} {e : Option SyntaxError}
      (h : c.next = (.ok t, d)) (ht : t.kind ≠ .eof) (htail : Cuts d ts e) : Cuts c (t :: ts) e
  | error {c d : Cursor} {e : SyntaxError} (h : c.next = (.error e, d)) : Cuts c [] (some e)

theorem tokens_cuts (c : Cursor) : Cuts c c.tokens.1 c.tokens.2 := by
  rw [tokens]
  split
  · rename_i e d h
    exact .error h
  · rename_i t d h
    split
    · rename_i ht
      exact .atEnd h ht
    · rename_i ht
      exact .token h ht (tokens_cuts d)
termination_by c.rest.length
decreasing_by
  rename_i h ht
  exact length_rest_next_lt h ht

/-- A text is cut in one way only. -/
theorem Cuts.tokens_eq {c : Cursor} {ts : List Token} {e : Option SyntaxError}
    (h : Cuts c ts e) : c.tokens = (ts, e) := by
  induction h with
  | atEnd h ht =>
    rw [tokens]
    split
    · rename_i h'
      cases h.symm.trans h'
    · rename_i h'
      cases h.symm.trans h'
      rw [dif_pos ht]
  | token h ht _ ih =>
    rw [tokens]
    split
    · rename_i h'
      cases h.symm.trans h'
    · rename_i h'
      cases h.symm.trans h'
      rw [dif_neg ht, ih]
  | error h =>
    rw [tokens]
    split
    · rename_i h'
      cases h.symm.trans h'
      rfl
    · rename_i h'
      cases h.symm.trans h'

/-! ## The next token of a text -/

section Next

variable {cs : List Char} {start : Cursor} {p : Nat}

theorem Within.eq {c : Cursor} (h : c.Within cs) : c = ⟨c.pos, cs.drop c.pos⟩ := by
  rw [← h.rest_eq]

/-- A token is the longest match behind the blanks. -/
theorem next_token_iff_longest (hstart : start.skipWhile Text.isBlank = ⟨p, cs.drop p⟩) {t : Token}
    (ht : t.kind ≠ .eof) (d : Cursor) :
    start.next = (.ok t, d) ↔ Lexeme.Longest (cs.drop p) t.kind t.raw ∧
      t.extent = Span.covering p t.raw.length ∧
      d = ⟨p + t.raw.length, cs.drop (p + t.raw.length)⟩ := by
  have hskip : ∀ raw, raw <+: cs.drop p → (⟨p, cs.drop p⟩ : Cursor).skip raw.length =
      ⟨p + raw.length, cs.drop (p + raw.length)⟩ := by
    intro raw hraw
    rw [skip, List.length_take, Nat.min_eq_left hraw.length_le, List.drop_drop]
  rw [next_eq_token_iff ht, hstart]
  constructor
  · rintro ⟨l, hl, rfl, rfl⟩
    obtain ⟨hfits, hprefix⟩ := Lexeme.first?_sound hl
    rw [Lexeme.token_kind, Lexeme.token_raw hfits, Lexeme.token_extent hfits]
    exact ⟨Lexeme.first?_eq_some_iff.mp hl, rfl, hskip l.raw hprefix⟩
  · rintro ⟨hlong, hextent, rfl⟩
    obtain ⟨l, hl⟩ : ∃ l : Lexeme, l = ⟨t.kind, t.raw⟩ := ⟨_, rfl⟩
    have hkind : t.kind = l.kind := by rw [hl]
    have hraw : t.raw = l.raw := by rw [hl]
    rw [hkind, hraw] at hlong
    rw [hraw] at hextent ⊢
    refine ⟨l, Lexeme.first?_eq_some_iff.mpr hlong, ?_, (hskip l.raw hlong.1.2).symm⟩
    -- the token that is made of the lexeme is the one that was given
    refine Token.eq_of_raw_of_extent ?_ ?_ ?_
    · rw [Lexeme.token_kind, hkind]
    · rw [Lexeme.token_raw hlong.1.1, hraw]
    · rw [Lexeme.token_extent hlong.1.1, hextent]

/-- The token that marks the end stands where nothing is left behind the blanks. -/
theorem next_atEnd_iff_length (hstart : start.skipWhile Text.isBlank = ⟨p, cs.drop p⟩)
    (hp : p ≤ cs.length) {t : Token} (ht : t.kind = .eof) (d : Cursor) :
    start.next = (.ok t, d) ↔ p = cs.length ∧ t = Token.atEnd p ∧ d = ⟨p, []⟩ := by
  rw [next_eq_atEnd_iff ht, hstart, List.drop_eq_nil_iff]
  constructor
  · rintro ⟨hle, rfl, rfl⟩
    exact ⟨by omega, rfl, by rw [List.drop_eq_nil_of_le hle]⟩
  · rintro ⟨rfl, rfl, rfl⟩
    exact ⟨le_rfl, rfl, by rw [List.drop_length]⟩

/-- There is an error just where the grammar has no prefix. -/
theorem next_error_iff_no_match (hstart : start.skipWhile Text.isBlank = ⟨p, cs.drop p⟩) :
    (∃ e, start.next.1 = .error e) ↔
      p < cs.length ∧ ∀ k r, Lexeme.Fits k r → ¬ r <+: cs.drop p := by
  simp only [next_eq_error_iff, hstart]
  constructor
  · rintro ⟨e, c, tail, hrest, hnone, _⟩
    have hlen := congrArg List.length hrest
    rw [List.length_drop, List.length_cons] at hlen
    rw [hrest]
    exact ⟨by omega, Lexeme.first?_eq_none_iff.mp hnone⟩
  · rintro ⟨hlt, hnone⟩
    have hne : cs.drop p ≠ [] := fun hnil => by
      rw [List.drop_eq_nil_iff] at hnil
      omega
    obtain ⟨c, tail, hrest⟩ := List.exists_cons_of_ne_nil hne
    rw [hrest] at hnone ⊢
    exact ⟨_, c, tail, rfl, Lexeme.first?_eq_none_iff.mpr hnone, rfl⟩

/-- The error is at the first character behind the blanks; a quote there is told from every
other character. -/
theorem next_error_place (hstart : start.skipWhile Text.isBlank = ⟨p, cs.drop p⟩)
    {e : SyntaxError} (he : start.next.1 = .error e) :
    ∃ c, cs[p]? = some c ∧
      e.span = some (Span.covering p (if c = '"' then cs.length - p else 1)) ∧
      e.message = if c = '"' then "unterminated string literal"
        else "did not expect character " ++ Text.quoted [c] := by
  simp only [next_eq_error_iff, hstart] at he
  obtain ⟨c, tail, hrest, _, rfl⟩ := he
  have hlen := congrArg List.length hrest
  rw [List.length_drop, List.length_cons] at hlen
  refine ⟨c, by rw [← List.head?_drop, hrest, List.head?_cons], ?_⟩
  unfold misfit
  split
  · rw [hlen]
    exact ⟨rfl, rfl⟩
  · exact ⟨rfl, rfl⟩

end Next

/-- From any offset of a text, the next token is the longest prefix in the grammar of what
follows the blanks, and the end of the text if nothing does. It is an error just where the
grammar has no prefix; the error is at the first character that is not blank, and a quote
there is told from every other character. -/
theorem next_longest_match (cs : List Char) (n : Nat) :
    ∃ p, ((ofText cs).skip n).skipWhile Text.isBlank = ⟨p, cs.drop p⟩ ∧ p ≤ cs.length ∧
      (∀ t d, t.kind ≠ .eof → (((ofText cs).skip n).next = (.ok t, d) ↔
        Lexeme.Longest (cs.drop p) t.kind t.raw ∧ t.extent = Span.covering p t.raw.length ∧
          d = ⟨p + t.raw.length, cs.drop (p + t.raw.length)⟩)) ∧
      (∀ t d, t.kind = .eof → (((ofText cs).skip n).next = (.ok t, d) ↔
        p = cs.length ∧ t = Token.atEnd p ∧ d = ⟨p, []⟩)) ∧
      ((∃ e, ((ofText cs).skip n).next.1 = .error e) ↔
        p < cs.length ∧ ∀ k r, Lexeme.Fits k r → ¬ r <+: cs.drop p) ∧
      ∀ e, ((ofText cs).skip n).next.1 = .error e → ∃ c, cs[p]? = some c ∧
        e.span = some (Span.covering p (if c = '"' then cs.length - p else 1)) ∧
        e.message = if c = '"' then "unterminated string literal"
          else "did not expect character " ++ Text.quoted [c] := by
  have hin : (((ofText cs).skip n).skipWhile Text.isBlank).Within cs :=
    ((within_ofText cs).skip n).skip _
  refine ⟨_, hin.eq, hin.pos_le, ?_, ?_, next_error_iff_no_match hin.eq, ?_⟩
  · intro t d ht
    exact next_token_iff_longest hin.eq ht d
  · intro t d ht
    exact next_atEnd_iff_length hin.eq hin.pos_le ht d
  · intro e he
    exact next_error_place hin.eq he

end Cursor

end MiniLisp
