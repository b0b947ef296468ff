import MiniLisp.Proofs.Source.Layout
import MiniLisp.Proofs.Source.Levels
import MiniLisp.Proofs.Source.Locality

/-!
# Texts one behind the other

A text that can be read, a gap, and a second text: the forms of the whole are those of the first
text and then those of the second. Where the second cannot be read, neither can the whole, and
the error is the second text's own, moved by what stands before it (`parse_append`).

Three things are behind it. The first text is cut as it is alone, since its last lexeme ends
before the gap as it did at the end (`Cursor.tokens_append_gap`); the second is cut as it is alone,
only further right (`Cursor.tokens_moved`); and what is read from the first text's tokens does not
depend on what follows them (`Parser.forms_local`).
-/

namespace MiniLisp

/-! ## Lexemes in front of a text -/

namespace Lexeme

variable {cs rest : List Char} {l : Lexeme}

/-- A number ends before a text that breaks it off as it does at the end. -/
theorem number_append_breaks (h : Breaks rest) (cs : List Char) :
    number (cs ++ rest) = number cs := by
  unfold number
  rw [takeWhile_append_of_halts h.halts_isDigit, dropWhile_append_of_halts h.halts_isDigit]
  cases hdrop : cs.dropWhile isDigit with
  | nil =>
    -- what follows the digits is the other text
    cases rest with
    | nil => rfl
    | cons c rest =>
      have hc : c ≠ '.' := by simpa using h.2 c rfl
      simp only [List.nil_append]
      split
      · rename_i heq
        exact absurd (List.cons.inj heq).1 hc
      · rfl
  | cons c tail =>
    by_cases hc : c = '.'
    · subst hc
      simp only [List.cons_append, takeWhile_append_of_halts h.halts_isDigit]
    · simp only [List.cons_append]
      split
      · rename_i heq
        exact absurd (List.cons.inj heq).1 hc
      · split
        · rename_i heq
          exact absurd (List.cons.inj heq).1 hc
        · rfl

/-- The lexeme at the head of a text is there as well if a text follows that breaks it off. -/
theorem first?_append_breaks (h : first? cs = some l) (hrest : Breaks rest) :
    first? (cs ++ rest) = some l := by
  cases cs with
  | nil => cases h
  | cons c cs =>
    rw [List.cons_append]
    by_cases hdigit : isDigit c = true
    · rw [first?_digit hdigit] at h ⊢
      rw [← List.cons_append, number_append_breaks hrest, h]
    by_cases hname : isNameStart c = true
    · rw [first?_nameStart hname] at h ⊢
      rw [takeWhile_append_of_halts hrest.1, h]
    by_cases hsign : isSign c = true
    · cases cs with
      | nil =>
        rw [first?_sign_alone hsign (halts_nil _)] at h
        rw [List.nil_append, first?_sign_alone hsign hrest.halts_isDigit, h]
      | cons d ds =>
        rw [List.cons_append]
        by_cases hd : isDigit d = true
        · rw [first?_sign_digit hsign hd] at h ⊢
          rw [← List.cons_append, number_append_breaks hrest, h]
        · have hhalts : ∀ tail, Halts isDigit (d :: tail) := halts_cons (by simpa using hd)
          rw [first?_sign_alone hsign (hhalts _)] at h ⊢
          exact h
    by_cases hquotes : c = '"'
    · -- a string has both its quotes in the first text
      subst hquotes
      obtain ⟨hfits, tail, htail⟩ := first?_sound h
      have hkind : l.kind = .string := by
        rw [first?_quotes, string?] at h
        split at h <;> cases h
        rfl
      rw [hkind] at hfits
      obtain ⟨body, hbody, hraw⟩ := hfits.string_inv
      rw [hraw, List.append_assoc, List.cons_append] at htail
      obtain rfl : body ++ ('"' :: tail) = cs := (List.cons.inj htail).2
      rw [first?_quotes, string?_append hbody] at h
      rw [List.append_assoc, List.cons_append, first?_quotes, string?_append hbody, h]
    · simp only [first?, hdigit, hname, hsign, hquotes, if_false] at h ⊢
      exact h

end Lexeme

/-! ## Rows of tokens -/

namespace Cursor

theorem pos_skipWhile (c : Cursor) (p : Char → Bool) :
    (c.skipWhile p).pos = c.pos + (c.rest.takeWhile p).length := by
  rw [skipWhile, pos_skip, Nat.min_eq_left (List.takeWhile_prefix p).length_le]

/-- A token is a lexeme behind blanks. -/
theorem next_token_split {c d : Cursor} {t : Token} (h : c.next = (.ok t, d))
    (ht : t.kind ≠ .eof) : ∃ w l, (∀ b ∈ w, Text.isBlank b = true) ∧
      c.rest = w ++ (l.raw ++ d.rest) ∧ Lexeme.first? (l.raw ++ d.rest) = some l ∧
      t = l.token (c.pos + w.length) ∧ d.pos = c.pos + w.length + l.raw.length := by
  obtain ⟨l, hl, rfl, rfl⟩ := (next_eq_token_iff ht).mp h
  have hraw : l.raw <+: (c.skipWhile Text.isBlank).rest := (Lexeme.first?_sound hl).2
  have hpos := c.pos_skipWhile Text.isBlank
  have hlexeme : l.raw ++ ((c.skipWhile Text.isBlank).skip l.raw.length).rest =
      (c.skipWhile Text.isBlank).rest := List.prefix_iff_eq_append.mp hraw
  refine ⟨c.rest.takeWhile Text.isBlank, l, fun b hb => List.mem_takeWhile_imp hb, ?_, ?_, ?_, ?_⟩
  · rw [hlexeme]
    exact (c.takeWhile_append_skipWhile _).symm
  · rw [hlexeme, hl]
  · rw [hpos]
  · rw [pos_skip, hpos, Nat.min_eq_left hraw.length_le]

/-- A token is the same in front of a text that breaks it off. -/
theorem tokens_append_of_next {c d : Cursor} {t : Token} (h : c.next = (.ok t, d))
    (ht : t.kind ≠ .eof) {rest : List Char} (hrest : Lexeme.Breaks rest) :
    (⟨c.pos, c.rest ++ rest⟩ : Cursor).tokens =
      (t :: (⟨d.pos, d.rest ++ rest⟩ : Cursor).tokens.1,
        (⟨d.pos, d.rest ++ rest⟩ : Cursor).tokens.2) := by
  obtain ⟨w, l, hw, hsplit, hfirst, rfl, hpos⟩ := next_token_split h ht
  have hahead := Lexeme.first?_append_breaks hfirst hrest
  rw [List.append_assoc] at hahead
  have hhalts := (Lexeme.first?_sound hfirst).1.halts_isBlank (d.rest ++ rest)
  rw [hsplit, List.append_assoc, List.append_assoc, tokens_blanks hw,
    tokens_lexeme hahead hhalts, hpos]

/-- A row that ends where its text does goes on with the row of what follows. -/
theorem Cuts.tokens_append {c : Cursor} {ts : List Token} {e : Option SyntaxError}
    (h : Cuts c ts e) {front : List Token} {last : Token} (hfront : ts = front ++ [last])
    (hlast : last.kind = .eof) {rest : List Char} (hrest : Lexeme.Breaks rest) :
    (⟨c.pos, c.rest ++ rest⟩ : Cursor).tokens =
      (front ++ (⟨c.pos + c.rest.length, rest⟩ : Cursor).tokens.1,
        (⟨c.pos + c.rest.length, rest⟩ : Cursor).tokens.2) := by
  -- on the run: each token is cut as before, and behind the last there are blanks only
  induction h generalizing front with
  | @atEnd c d t h ht =>
    obtain ⟨hend, _, _⟩ := (next_eq_atEnd_iff ht).mp h
    have hnil : front = [] := by
      have hlength := congrArg List.length hfront
      simpa using hlength
    have hblanks : ∀ b ∈ c.rest, Text.isBlank b = true := by
      have hsplit := c.takeWhile_append_skipWhile Text.isBlank
      rw [hend, List.append_nil] at hsplit
      intro b hb
      rw [← hsplit] at hb
      exact List.mem_takeWhile_imp hb
    rw [hnil, tokens_blanks hblanks]
    rfl
  | @token c d t ts e h ht _ ih =>
    cases front with
    | nil =>
      obtain ⟨rfl, _⟩ := List.cons.inj hfront
      exact absurd hlast ht
    | cons u front =>
      obtain ⟨rfl, htail⟩ := List.cons.inj hfront
      have hlength : d.pos + d.rest.length = c.pos + c.rest.length := by
        obtain ⟨w, l, _, hsplit, _, _, hpos⟩ := next_token_split h ht
        rw [hsplit, hpos, List.length_append, List.length_append]
        omega
      rw [tokens_append_of_next h ht hrest, ih htail, hlength, List.cons_append]
  | error h => simp at hfront

end Cursor

/-! ## Rows further right -/

/-- The second span is the first one, moved to the right. -/
def Span.Moved (n : Nat) (s s' : Span) : Prop := s' = s.shift n

theorem Span.covering_moved (n start length : Nat) :
    Span.Moved n (covering start length) (covering (start + n) length) := by
  simp only [Moved, covering, shift, mk.injEq]
  omega

theorem Lexeme.token_moved (l : Lexeme) (n pos : Nat) :
    (l.token pos).Alike (Span.Moved n) (l.token (pos + n)) := by
  refine ⟨by rw [token_kind, token_kind], ?_, ?_⟩
  · unfold token
    split <;> rfl
  · unfold token
    split
    · rw [show pos + n + 1 = pos + 1 + n by omega]
      exact Span.covering_moved n _ _
    · exact Span.covering_moved n _ _

namespace Cursor

/-- The cursor before the same characters, with `n` more behind it. -/
def moved (c : Cursor) (n : Nat) : Cursor := ⟨c.pos + n, c.rest⟩

theorem skip_moved (c : Cursor) (n m : Nat) : (c.moved n).skip m = (c.skip m).moved n := by
  simp only [skip, moved, mk.injEq, and_true]
  omega

theorem skipWhile_moved (c : Cursor) (n : Nat) (p : Char → Bool) :
    (c.moved n).skipWhile p = (c.skipWhile p).moved n :=
  skip_moved c n _

/-- The next token, or error, is the same from a cursor that is moved, at a place that is moved. -/
theorem next_moved (c : Cursor) (n : Nat) :
    (∃ t u d, c.next = (.ok t, d) ∧ (c.moved n).next = (.ok u, d.moved n) ∧
      t.Alike (Span.Moved n) u) ∨
    ∃ e f d, c.next = (.error e, d) ∧ (c.moved n).next = (.error f, d.moved n) ∧
      e.Alike (Span.Moved n) f := by
  unfold next
  simp only [skipWhile_moved]
  generalize c.skipWhile Text.isBlank = b
  rw [show (b.moved n).rest = b.rest from rfl, show (b.moved n).pos = b.pos + n from rfl]
  split
  · exact .inl ⟨_, _, _, rfl, rfl, rfl, rfl, Span.covering_moved n _ _⟩
  · split
    · rename_i l _
      rw [skip_moved]
      exact .inl ⟨_, _, _, rfl, rfl, l.token_moved n _⟩
    · split
      · rw [skip_moved]
        exact .inr ⟨_, _, _, rfl, rfl, rfl, .some (Span.covering_moved n _ _)⟩
      · exact .inr ⟨_, _, _, rfl, rfl, rfl, .some (Span.covering_moved n _ _)⟩

theorem Cuts.moved {c : Cursor} {ts : List Token} {e : Option SyntaxError} (h : Cuts c ts e)
    (n : Nat) : ∃ us f, Cuts (c.moved n) us f ∧ RowsAlike (Span.Moved n) (ts, e) (us, f) := by
  induction h with
  | @atEnd c d t h ht =>
    rcases c.next_moved n with ⟨t', u, d', heq, hu, halike⟩ | ⟨_, _, _, heq, _⟩
    · cases h.symm.trans heq
      exact ⟨[u], none, .atEnd hu (by rw [← halike.kind, ht]), .cons halike .nil, .none⟩
    · cases h.symm.trans heq
  | @token c d t ts e h ht _ ih =>
    rcases c.next_moved n with ⟨t', u, d', heq, hu, halike⟩ | ⟨_, _, _, heq, _⟩
    · cases h.symm.trans heq
      obtain ⟨us, f, hcuts, htokens, herror⟩ := ih
      exact ⟨u :: us, f, .token hu (by rwa [← halike.kind]) hcuts, .cons halike htokens, herror⟩
    · cases h.symm.trans heq
  | @error c d e h =>
    rcases c.next_moved n with ⟨_, _, _, heq, _⟩ | ⟨e', f, d', heq, hf, halike⟩
    · cases h.symm.trans heq
    · cases h.symm.trans heq
      exact ⟨[], some f, .error hf, .nil, .some halike⟩

/-- A text is cut further right as it is cut alone. -/
theorem tokens_moved (c : Cursor) (n : Nat) :
    RowsAlike (Span.Moved n) c.tokens (c.moved n).tokens := by
  obtain ⟨us, f, hcuts, halike⟩ := c.tokens_cuts.moved n
  rw [hcuts.tokens_eq]
  exact halike

end Cursor

/-! ## Reading -/

/-- The failure of the same text with `n` more characters before it. -/
def ReadFailure.shift : ReadFailure → Nat → ReadFailure
  | .malformed e, n => .malformed (e.shift n)
  | .fault f, _ => .fault f

theorem ResultsAlike.eq_mapError {α : Type} {n : Nat} {r q : Except ReadFailure α}
    (h : ResultsAlike (Span.Moved n) r q) : q = r.mapError (·.shift n) := by
  cases h with
  | ok => rfl
  | error hf =>
    cases hf with
    | fault => rfl
    | @malformed e f he =>
      obtain ⟨cause, span⟩ := e
      obtain ⟨cause', span'⟩ := f
      obtain ⟨rfl, hplace⟩ := he
      cases hplace with
      | none => rfl
      | some hplace =>
        rw [hplace]
        rfl

theorem ReadFailure.ofText_shift (f : ReadFailure) (n : Nat) :
    (f.shift n).ofText = f.ofText.shift n := by
  cases f with
  | malformed e => rfl
  | fault f => cases f <;> rfl

section Levels

variable {levels : Nat} {cs w rest : List Char} {nodes more : List Node}

/-- The parser that has read a whole text, and the one that is at its end then. -/
theorem exists_toEnd_of_readLevels (h : readLevels levels cs = .ok nodes) :
    ∃ p q lt, Parser.start (.ofText cs) = .ok p ∧ p.toEnd levels = .done nodes q lt := by
  cases hstart : Parser.start (.ofText cs) with
  | error e =>
    rw [readLevels_of_start_error hstart] at h
    cases h
  | ok p =>
    rw [readLevels_of_start_ok hstart] at h
    cases hforms : p.toEnd levels with
    | failed f q =>
      rw [hforms] at h
      cases h
    | done ns q lt =>
      rw [hforms] at h
      cases h
      exact ⟨p, q, lt, rfl, hforms⟩

/-- A text and a gap are cut as they are alone, and so is what follows. -/
theorem Cursor.tokens_append_gap {ts : List Token} {last : Token}
    {e : Option SyntaxError} (h : (ofText cs).tokens = (ts ++ [last], e)) (hlast : last.kind = .eof)
    (hw : IsGap w) (rest : List Char) :
    (ofText (cs ++ w ++ rest)).tokens =
      (ts ++ ((ofText rest).moved (cs.length + w.length)).tokens.1,
        ((ofText rest).moved (cs.length + w.length)).tokens.2) := by
  have hcuts := (ofText cs).tokens_cuts
  rw [h] at hcuts
  have htokens := hcuts.tokens_append rfl hlast (hw.breaks rest)
  rw [tokens_blanks hw.blank] at htokens
  rw [List.append_assoc]
  have hmoved : (⟨(ofText cs).pos + (ofText cs).rest.length + w.length, rest⟩ : Cursor) =
      (ofText rest).moved (cs.length + w.length) := by
    simp only [ofText, moved, mk.injEq, and_true]
    omega
  rw [hmoved] at htokens
  exact htokens

/-- What is read of a text is read of it before a gap, too; then the row behind the gap is read,
if it has a token. -/
theorem readLevels_append_row (h : readLevels levels cs = .ok nodes) (hw : IsGap w)
    (rest : List Char) :
    (∃ e, ((Cursor.ofText rest).moved (cs.length + w.length)).tokens = ([], some e) ∧
      readLevels levels (cs ++ w ++ rest) = .error (.malformed e)) ∨
    ∃ q : Parser, q.tokens = ((Cursor.ofText rest).moved (cs.length + w.length)).tokens ∧
      readLevels levels (cs ++ w ++ rest) = (q.toEnd levels).result.map (nodes ++ ·) := by
  obtain ⟨p, last, lt, hstart, hforms⟩ := exists_toEnd_of_readLevels h
  have hlocal := Parser.forms_local (fun _ => false) (Parser.form_local levels) p
  rw [Parser.toEnd] at hforms
  rw [hforms] at hlocal
  obtain ⟨hend, ts, hts, hcontinues⟩ := hlocal
  have heof : last.current.kind = .eof := by simpa using hend
  have halone : (Cursor.ofText cs).tokens = (ts ++ [last.current], none) := by
    rw [← Parser.start_ok hstart, hts, Parser.tokens, if_pos heof]
  have hwhole := Cursor.tokens_append_gap halone heof hw rest
  generalize ((Cursor.ofText rest).moved (cs.length + w.length)).tokens = row at hwhole ⊢
  cases hstart' : Parser.start (.ofText (cs ++ w ++ rest)) with
  | error e =>
    rw [Parser.start_error hstart', Prod.mk.injEq] at hwhole
    obtain ⟨hnil, herror⟩ := hwhole
    have hrow : row = ([], some e) := Prod.ext (List.append_eq_nil_iff.mp hnil.symm).2 herror.symm
    exact .inl ⟨e, hrow, readLevels_of_start_error hstart'⟩
  | ok p' =>
    have hp' : p'.tokens = (ts ++ row.1, row.2) := by rw [Parser.start_ok hstart', hwhole]
    rw [readLevels_of_start_ok hstart', Parser.toEnd]
    rcases hcontinues p' row hp' with ⟨e, q, hrow, hfailed⟩ | ⟨q, hrow, hends⟩
    · refine .inl ⟨e, hrow, ?_⟩
      rw [hfailed]
      rfl
    · refine .inr ⟨q, hrow, ?_⟩
      rw [Parser.toEnd]
      generalize Parser.forms _ _ q = s at hends ⊢
      cases s with
      | done more r lt' =>
        obtain ⟨_, hdone⟩ := hends
        rw [hdone]
        rfl
      | failed f r =>
        obtain ⟨_, hfailed⟩ := hends
        rw [hfailed]
        rfl

/-- With one number of levels for all texts, reading is a homomorphism, also where they are too
few for the second text. -/
theorem readLevels_append (h : readLevels levels cs = .ok nodes) (hw : IsGap w)
    (rest : List Char) :
    readLevels levels (cs ++ w ++ rest) =
      ((readLevels levels rest).map (nodes ++ ·)).mapError (·.shift (cs.length + w.length)) := by
  have halike : ResultsAlike (Span.Moved (cs.length + w.length))
      ((readLevels levels rest).map (nodes ++ ·)) (readLevels levels (cs ++ w ++ rest)) := by
    have hrows := (Cursor.ofText rest).tokens_moved (cs.length + w.length)
    cases hstart : Parser.start (.ofText rest) with
    | error e =>
      rw [readLevels_of_start_error hstart]
      rw [Parser.start_error hstart] at hrows
      -- the second text has no token, so there is none behind the gap either
      rcases readLevels_append_row h hw rest with ⟨f, hrow, hread⟩ | ⟨q, hrow, _⟩
      · rw [hread]
        rw [hrow] at hrows
        cases hrows.error with
        | some herror => exact .error (.malformed herror)
      · rw [← hrow] at hrows
        exact absurd (List.forall₂_nil_left_iff.mp hrows.tokens) q.tokens_ne_nil
    | ok p =>
      rw [readLevels_of_start_ok hstart]
      rw [← Parser.start_ok hstart] at hrows
      rcases readLevels_append_row h hw rest with ⟨f, hrow, _⟩ | ⟨q, hrow, hread⟩
      · rw [hrow] at hrows
        exact absurd (List.forall₂_nil_right_iff.mp hrows.tokens) p.tokens_ne_nil
      · rw [← hrow] at hrows
        rw [hread]
        exact (Parser.toEnd_alike levels hrows).map _
  exact halike.eq_mapError

theorem ReadsWithin.append (h : readLevels levels cs = .ok nodes) (hw : IsGap w)
    (hrest : ReadsWithin levels rest) : ReadsWithin levels (cs ++ w ++ rest) := by
  unfold ReadsWithin at hrest ⊢
  rw [readLevels_append h hw]
  cases hread : readLevels levels rest with
  | ok more => exact nofun
  | error f =>
    rw [hread] at hrest
    intro hdeep
    cases f with
    | malformed e => cases hdeep
    | fault f => exact hrest (by simpa [Except.mapError, Except.map, ReadFailure.shift] using hdeep)

end Levels

section Parse

variable [Host] {cs w rest : List Char} {nodes more : List Node}

/-- Texts that fit, also together, are read together as they are apart. -/
theorem parse_append_of_fits (h : parse cs = .ok nodes) (hw : IsGap w) (hrest : Fits rest)
    (hwhole : Fits (cs ++ w ++ rest)) :
    parse (cs ++ w ++ rest) =
      ((parse rest).map (nodes ++ ·)).mapError (·.shift (cs.length + w.length)) := by
  obtain ⟨levels, hcs, hr, hall⟩ : ∃ levels, Host.levels cs ≤ levels ∧
      Host.levels rest ≤ levels ∧ Host.levels (cs ++ w ++ rest) ≤ levels :=
    ⟨max (Host.levels cs) (max (Host.levels rest) (Host.levels (cs ++ w ++ rest))), by omega,
      by omega, by omega⟩
  rw [hwhole.parse_eq hall, hrest.parse_eq hr, readLevels_append (readLevels_of_parse h hcs) hw]
  cases readLevels levels rest with
  | ok more => rfl
  | error f => exact congrArg Except.error (f.ofText_shift _)

/-- Two texts that are read are read with a gap between them, if the two fit together. -/
theorem parse_append_parsed (h : parse cs = .ok nodes) (hw : IsGap w)
    (hrest : parse rest = .ok more) (hwhole : Fits (cs ++ w ++ rest)) :
    parse (cs ++ w ++ rest) = .ok (nodes ++ more) := by
  rw [parse_append_of_fits h hw (fits_of_parse hrest) hwhole, hrest]
  rfl

/-- Reading is a homomorphism. A text that is read as `nodes`, a gap, and any other text are read
as `nodes` and then what the other text is read as; and if that one is not read, it is for the
same reason, at the place that is moved by what stands before it. This takes no more of the host
than that its stack holds the other text, alone and behind the first; and it does where neither
text is nested deeper than a hundred levels. -/
theorem parse_append (h : parse cs = .ok nodes) (hw : IsGap w) (rest : List Char) :
    (Fits rest → Fits (cs ++ w ++ rest) →
      parse (cs ++ w ++ rest) =
        match parse rest with
        | .ok more => .ok (nodes ++ more)
        | .error failure => .error (failure.shift (cs.length + w.length))) ∧
      (Node.depthEach nodes ≤ 100 → ReadsWithin 202 rest →
        Fits rest ∧ Fits (cs ++ w ++ rest)) := by
  constructor
  · intro hrest hwhole
    rw [parse_append_of_fits h hw hrest hwhole]
    cases parse rest <;> rfl
  · intro hdepth hrest
    obtain ⟨ts, hcuts, hspells⟩ := spells_of_parse h
    have hread : readLevels 202 cs = .ok nodes := readLevels_of_spells hcuts hspells (by omega)
    exact ⟨hrest.fits, (ReadsWithin.append hread hw hrest).fits⟩

end Parse

/-- A quoted name and a gap, before a signed number and before a text whose second token is a
string that nothing closes. -/
theorem parse_append_quoted_name :
    parse "(f 1)'x".toList = .ok [.expr [.name "f", .int 1], .symbol "x"] ∧ IsGap [' ', '\n'] ∧
      Node.depthEach [.expr [.name "f", .int 1], .symbol "x"] ≤ 100 ∧
      ReadsWithin 202 "-5".toList ∧ ReadsWithin 202 "(\"a".toList ∧
      parse ("(f 1)'x".toList ++ [' ', '\n'] ++ "-5".toList) =
        .ok [.expr [.name "f", .int 1], .symbol "x", .int (-5)] ∧
      parse ("(f 1)'x".toList ++ [' ', '\n'] ++ "(\"a".toList) =
        .error (.malformed ⟨.unterminatedString, some (Span.covering 10 2)⟩) := by
  have hfirst : parse "(f 1)'x".toList = .ok [.expr [.name "f", .int 1], .symbol "x"] := by cbv
  have hnumber : parse "-5".toList = .ok [.int (-5)] := by cbv
  have hstring : parse "(\"a".toList =
      .error (.malformed ⟨.unterminatedString, some (Span.covering 1 2)⟩) := by cbv
  have hgap : IsGap [' ', '\n'] := by decide
  have hdepth : Node.depthEach [.expr [.name "f", .int 1], .symbol "x"] ≤ 100 := by decide
  have hwithin : ReadsWithin 202 "-5".toList := readsWithin_of_length_lt (by decide)
  have hwithin' : ReadsWithin 202 "(\"a".toList := readsWithin_of_length_lt (by decide)
  refine ⟨hfirst, hgap, hdepth, hwithin, hwithin', ?_, ?_⟩
  · obtain ⟨hparse, hfits⟩ := parse_append hfirst hgap "-5".toList
    obtain ⟨hrest, hwhole⟩ := hfits hdepth hwithin
    rw [hparse hrest hwhole, hnumber]
    rfl
  · obtain ⟨hparse, hfits⟩ := parse_append hfirst hgap "(\"a".toList
    obtain ⟨hrest, hwhole⟩ := hfits hdepth hwithin'
    rw [hparse hrest hwhole, hstring]
    rfl

end MiniLisp
