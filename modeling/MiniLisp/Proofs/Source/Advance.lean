import MiniLisp.Proofs.Source.Placement

/-!
# Going on in a text

A token moves the cursor on (`Cursor.next_advances`), and a form leaves a token ahead that begins
later than the one it began with (`Parser.Placed.form_advances`). That is so at every parser that
reading a text can come to: all that reading does to a parser is to go on by one token, so what one
such step keeps, reading keeps (`Parser.Stable.keeps_form`).
-/

namespace MiniLisp

/-! ## Cursors -/

namespace Cursor

variable {cs : List Char} {c d : Cursor}

theorem pos_le_skip (c : Cursor) (n : Nat) : c.pos ≤ (c.skip n).pos := Nat.le_add_right _ _

/-- From a cursor of the text the next one is in the text, and not before it. -/
theorem Within.of_next {r : Except SyntaxError Token} (h : c.Within cs) (hnext : c.next = (r, d)) :
    d.Within cs ∧ c.pos ≤ d.pos := by
  have hskip : (c.skipWhile Text.isBlank).Within cs := h.skip _
  have hle := c.pos_le_skipWhile Text.isBlank
  unfold next at hnext
  simp only at hnext
  split at hnext
  · cases hnext
    exact ⟨hskip, hle⟩
  · split at hnext
    · cases hnext
      exact ⟨hskip.skip _, hle.trans (pos_le_skip _ _)⟩
    · split at hnext
      · cases hnext
        exact ⟨hskip.skip _, hle.trans (pos_le_skip _ _)⟩
      · cases hnext
        exact ⟨hskip, hle⟩

/-- Before a character that is not blank, the next token is not the end. -/
theorem kind_ne_eof_of_not_blank {t : Token} (hrest : ∃ ch ∈ c.rest, Text.isBlank ch = false)
    (hnext : c.next = (.ok t, d)) : t.kind ≠ .eof := by
  intro ht
  obtain ⟨hnil, _⟩ := (next_eq_atEnd_iff ht).mp hnext
  obtain ⟨ch, hch, hvisible⟩ := hrest
  have hsplit := c.takeWhile_append_skipWhile Text.isBlank
  rw [hnil, List.append_nil] at hsplit
  rw [← hsplit] at hch
  rw [List.mem_takeWhile_imp hch] at hvisible
  cases hvisible

/-- A token stands behind the cursor that it is cut from, and begins before the cursor that is left,
unless it is the end. -/
theorem next_span {t : Token} (hnext : c.next = (.ok t, d)) :
    c.pos ≤ t.span.start ∧ (t.kind ≠ .eof → t.span.start < d.pos) := by
  have hle := c.pos_le_skipWhile Text.isBlank
  by_cases ht : t.kind = .eof
  · obtain ⟨_, rfl, _⟩ := (next_eq_atEnd_iff ht).mp hnext
    refine ⟨?_, fun hne => absurd ht hne⟩
    rw [Token.atEnd, Span.covering_start]
    omega
  · obtain ⟨l, hl, rfl, rfl⟩ := (next_eq_token_iff ht).mp hnext
    obtain ⟨hfits, hprefix⟩ := Lexeme.first?_sound hl
    have hpos := hfits.length_pos
    rw [pos_skip, Nat.min_eq_left hprefix.length_le]
    unfold Lexeme.token
    split
    · -- the span of a string begins behind its quote
      rename_i hkind
      rw [hkind] at hfits
      obtain ⟨content, _, hraw⟩ := hfits.string_inv
      have hlength : l.raw.length = content.length + 2 := by simp [hraw]
      simp only [Span.covering_start]
      omega
    · simp only [Span.covering_start]
      omega

/-- Before a character that is not blank, a token moves the cursor on. -/
theorem next_advances {t : Token} (hrest : ∃ ch ∈ c.rest, Text.isBlank ch = false)
    (hnext : c.next = (.ok t, d)) : c.pos < d.pos := by
  obtain ⟨hle, hlt⟩ := next_span hnext
  have hlt' := hlt (kind_ne_eof_of_not_blank hrest hnext)
  omega

/-- Every token that is cut from a cursor on stands behind it. -/
theorem Within.le_span_start (h : c.Within cs) : ∀ t ∈ c.tokens.1, c.pos ≤ t.span.start := by
  have hcuts := c.tokens_cuts
  generalize c.tokens.1 = ts at hcuts
  generalize c.tokens.2 = e at hcuts
  induction hcuts with
  | atEnd hnext _ =>
    intro t ht
    obtain rfl := List.mem_singleton.mp ht
    exact (next_span hnext).1
  | token hnext _ _ ih =>
    intro t ht
    obtain ⟨hd, hle⟩ := h.of_next hnext
    rcases List.mem_cons.mp ht with rfl | ht
    · exact (next_span hnext).1
    · have hstart := ih hd t ht
      omega
  | error _ =>
    intro t ht
    cases ht

end Cursor

namespace Parser

/-! ## The parsers of a text -/

/-- The parsers that reading a text can come to: the one at the first token, and what going on from
one of them leaves, where no token can be cut as well. -/
inductive Reached (cs : List Char) : Parser → Prop where
  | start {p : Parser} (h : start (.ofText cs) = .ok p) : Reached cs p
  | advance {p : Parser} (h : Reached cs p) : Reached cs p.advance.2

/-- The cursor stands in the text, and the token ahead begins before it. -/
structure Placed (cs : List Char) (p : Parser) : Prop where
  within : p.cursor.Within cs
  ahead : p.current.kind ≠ .eof → 0 ≤ p.current.span.start ∧ p.current.span.start < p.cursor.pos

variable {cs : List Char} {p q : Parser}

theorem placed_of_next {c d : Cursor} {t : Token} (h : c.Within cs) (hnext : c.next = (.ok t, d)) :
    Placed cs ⟨t, d⟩ := by
  obtain ⟨hle, hlt⟩ := Cursor.next_span hnext
  exact ⟨(h.of_next hnext).1, fun ht => ⟨by dsimp only; omega, hlt ht⟩⟩

theorem Placed.advance (h : Placed cs p) : Placed cs p.advance.2 := by
  unfold Parser.advance
  split
  · rename_i t d hnext
    exact placed_of_next h.within hnext
  · rename_i e d hnext
    obtain ⟨hd, hle⟩ := h.within.of_next hnext
    refine ⟨hd, fun hp => ?_⟩
    obtain ⟨hstart, hlt⟩ := h.ahead hp
    exact ⟨hstart, by dsimp only; omega⟩

theorem Reached.placed (h : Reached cs p) : Placed cs p := by
  induction h with
  | start h =>
    unfold Parser.start at h
    split at h
    · rename_i t d hnext
      cases h
      exact placed_of_next (Cursor.within_ofText cs) hnext
    · cases h
  | advance _ ih => exact ih.advance

/-- What is left to read is no larger than the text: the token ahead has a character. -/
theorem Placed.size_le (h : Placed cs p) : p.size ≤ cs.length := by
  have hlength := h.within.length_rest
  unfold size
  split
  · omega
  · rename_i hp
    obtain ⟨hstart, hlt⟩ := h.ahead hp
    have hle := h.within.pos_le
    omega

/-- The token ahead behind a form begins later than the one ahead before it. -/
theorem Placed.form_advances (h : Placed cs p) {depth : Nat} {node : Node} {lt : q.size < p.size}
    (hform : form depth p = .done node q lt) : p.current.span.start < q.current.span.start := by
  have hends := form_ends depth p
  rw [hform] at hends
  obtain ⟨ts, htakes, hspells⟩ := hends
  obtain ⟨t, us, rfl, _, heof⟩ := hspells.head
  have hcurrent : p.current = t := current_eq (by rw [htakes]; rfl)
  rw [← hcurrent] at heof
  -- all but the first of the form's tokens, and those behind them, are cut from the cursor on
  have hrow : p.tokens = (p.current :: p.cursor.tokens.1, p.cursor.tokens.2) := if_neg heof
  rw [htakes] at hrow
  have hbehind : us ++ q.tokens.1 = p.cursor.tokens.1 :=
    (List.cons.inj (congrArg Prod.fst hrow)).2
  have hmem : q.current ∈ p.cursor.tokens.1 := by
    rw [← hbehind]
    exact List.mem_append_right us q.current_mem_tokens
  have hlt := (h.ahead heof).2
  have hle := h.within.le_span_start q.current hmem
  omega

/-! ## What reading keeps -/

/-- The step leaves a parser that satisfies `P`, and if it fails then for a reason that satisfies
`F`. -/
def Step.Keeps {α : Type} {bound : Nat} (P : Parser → Prop) (F : ReadFailure → Prop) :
    Step α bound → Prop
  | .done _ next _ => P next
  | .failed failure last => F failure ∧ P last

/-- Going on keeps `P`, and every reason to fail at a token satisfies `F`. -/
structure Stable (P : Parser → Prop) (F : ReadFailure → Prop) : Prop where
  advance : ∀ p, P p → P p.advance.2
  malformed : ∀ e, F (.malformed e)
  tooLong : ∀ digits, F (.fault (.literalTooLong digits))

theorem atom_error_cases {t : Token} {f : ReadFailure} (h : atom t = .error f) :
    (∃ e, f = .malformed e) ∨ ∃ digits, f = .fault (.literalTooLong digits) := by
  unfold atom at h
  split at h
  · split at h
    · cases h
    · cases h
      exact .inr ⟨_, rfl⟩
  · cases h
  · cases h
  · cases h
  · split at h
    · cases h
    · cases h
      exact .inl ⟨_, rfl⟩
  · cases h
    exact .inl ⟨_, rfl⟩

theorem quote_error_cases {span : Span} {node : Node} {f : ReadFailure}
    (h : quote span node = .error f) : ∃ e, f = .malformed e := by
  cases node <;> cases h <;> exact ⟨_, rfl⟩

namespace Stable

variable {P : Parser → Prop} {F : ReadFailure → Prop}

theorem keeps_take (h : Stable P F) (hp : p.current.kind ≠ .eof) (hP : P p) :
    (p.take hp).Keeps P F := by
  have hadvance := h.advance p hP
  unfold take
  split
  · rename_i heq
    rwa [heq] at hadvance
  · rename_i heq
    rw [heq] at hadvance
    exact ⟨h.malformed _, hadvance⟩

theorem keeps_close (h : Stable P F) (hP : P p) : p.close.Keeps P F := by
  unfold close
  split
  · exact h.keeps_take _ hP
  · exact ⟨h.malformed _, hP⟩

section Forms

variable {form : (p : Parser) → Step Node p.size}

theorem keeps_forms (h : Stable P F) (stops : TokenKind → Bool) (p : Parser)
    (hform : ∀ r, r.size ≤ p.size → P r → (form r).Keeps P F) (hP : P p) :
    (forms stops form p).Keeps P F := by
  rw [forms]
  split
  · exact hP
  · have hhead := hform p le_rfl hP
    split
    · rename_i heq
      rwa [heq] at hhead
    · rename_i node q lt heq
      rw [heq] at hhead
      have htail := h.keeps_forms stops q (fun r hr => hform r (hr.trans lt.le)) hhead
      split
      · rename_i heq'
        rwa [heq'] at htail
      · rename_i heq'
        rwa [heq'] at htail
termination_by p.size

theorem keeps_list (h : Stable P F) (hform : ∀ r, r.size < p.size → P r → (form r).Keeps P F)
    (hP : P p) : (list form p).Keeps P F := by
  unfold list
  split
  · rename_i hopen
    have htake := h.keeps_take (by simp [hopen]) hP
    split
    · rename_i heq
      rwa [heq] at htake
    · rename_i q lt heq
      rw [heq] at htake
      have hforms := h.keeps_forms (· == .closeParen) q (fun r hr => hform r (hr.trans_lt lt)) htake
      split
      · rename_i heq'
        rwa [heq'] at hforms
      · rename_i items r lt' heq'
        rw [heq'] at hforms
        have hclose := h.keeps_close hforms
        split
        · rename_i heq''
          rwa [heq''] at hclose
        · rename_i heq''
          rwa [heq''] at hclose
  · exact ⟨h.malformed _, hP⟩

end Forms

/-- Reading a form keeps what going on keeps, and with levels enough it fails at a token
only. -/
theorem keeps_form (h : Stable P F) (depth : Nat) : ∀ p, P p →
    F (.fault .nestedTooDeeply) ∨ p.size < depth → (form depth p).Keeps P F := by
  induction depth with
  | zero =>
    intro p hP hdeep
    exact ⟨hdeep.resolve_right (Nat.not_lt_zero _), hP⟩
  | succ depth ih =>
    intro p hP hdeep
    have hinner : ∀ r, r.size < p.size → P r → (form depth r).Keeps P F := by
      intro r hr hPr
      exact ih r hPr (hdeep.imp_right fun hlt => by omega)
    by_cases hopen : p.current.kind = .openParen
    · have hlist := h.keeps_list hinner hP
      rw [form_openParen hopen]
      cases heq : list (form depth) p with
      | done items q lt => rwa [heq] at hlist
      | failed f q => rwa [heq] at hlist
    by_cases hnone : p.current.kind = .closeParen ∨ p.current.kind = .eof
    · rw [form_none hnone]
      exact ⟨h.malformed _, hP⟩
    obtain ⟨hclose, heof⟩ := not_or.mp hnone
    have htake := h.keeps_take heof hP
    by_cases hquote : p.current.kind = .quote
    · rw [form_quote hquote heof]
      split
      · rename_i heq
        rwa [heq] at htake
      · rename_i q lt heq
        rw [heq] at htake
        have hform := hinner q lt htake
        split
        · rename_i heq'
          rwa [heq'] at hform
        · rename_i heq'
          rw [heq'] at hform
          split
          · exact hform
          · rename_i hf
            obtain ⟨e, rfl⟩ := quote_error_cases hf
            exact ⟨h.malformed e, hform⟩
    · rw [form_literal hopen hclose hquote heof]
      split
      · rename_i heq
        rwa [heq] at htake
      · rename_i heq
        rw [heq] at htake
        split
        · exact htake
        · rename_i hf
          rcases atom_error_cases hf with ⟨e, rfl⟩ | ⟨digits, rfl⟩
          · exact ⟨h.malformed e, htake⟩
          · exact ⟨h.tooLong digits, htake⟩

end Stable

theorem Step.Keeps.parser {α : Type} {bound : Nat} {P : Parser → Prop} {F : ReadFailure → Prop}
    {s : Step α bound} (h : s.Keeps P F) : P s.parser := by
  cases s with
  | done _ _ _ => exact h
  | failed _ _ => exact h.2

theorem Step.Keeps.failure {α : Type} {bound : Nat} {P : Parser → Prop} {F : ReadFailure → Prop}
    {s : Step α bound} (h : s.Keeps P F) {f : ReadFailure} (hf : s.result = .error f) : F f := by
  cases s with
  | done _ _ _ => cases hf
  | failed _ _ =>
    cases hf
    exact h.1

theorem stable_reached (cs : List Char) : Stable (Reached cs) fun _ => True :=
  ⟨fun _ => .advance, fun _ => trivial, fun _ => trivial⟩

/-- Reading a form goes from one parser that is reached to another, whether there is a form or
not. -/
theorem Reached.after_form (h : Reached cs p) (depth : Nat) : Reached cs (form depth p).parser :=
  ((stable_reached cs).keeps_form depth p h (.inl trivial)).parser

end Parser

end MiniLisp
