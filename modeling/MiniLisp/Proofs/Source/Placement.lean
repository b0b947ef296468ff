import Mathlib.Data.List.Forall2
import MiniLisp.Proofs.Source.Reading

/-!
# Reading does not look at places

A parser sees of its tokens the kinds and the contents only; where they stand shows in errors and
nowhere else. So rows of tokens that are alike, with each token's place related to the other's
place, are read alike (`Parser.form_alike`): as the same forms, or with errors of the same cause
at related places.
-/

namespace MiniLisp

/-- Tokens of one kind with the same contents, at related places. -/
structure Token.Alike (S : Span → Span → Prop) (t u : Token) : Prop where
  kind : t.kind = u.kind
  content : t.content = u.content
  place : S t.span u.span

/-- Errors of one cause, at related places or neither at one. -/
structure SyntaxError.Alike (S : Span → Span → Prop) (e f : SyntaxError) : Prop where
  cause : e.cause = f.cause
  place : Option.Rel S e.span f.span

/-- Failures of one kind: errors that are alike, or the same fault. -/
inductive ReadFailure.Alike (S : Span → Span → Prop) : ReadFailure → ReadFailure → Prop where
  | malformed {e f : SyntaxError} (h : e.Alike S f) : Alike S (.malformed e) (.malformed f)
  | fault (f : Fault) : Alike S (.fault f) (.fault f)

/-- Results of reading: the same value, or failures that are alike. -/
inductive ResultsAlike (S : Span → Span → Prop) {α : Type} :
    Except ReadFailure α → Except ReadFailure α → Prop where
  | ok (value : α) : ResultsAlike S (.ok value) (.ok value)
  | error {f g : ReadFailure} (h : f.Alike S g) : ResultsAlike S (.error f) (.error g)

/-- Rows of tokens that are alike one by one, and stop short for the same cause or not at all. -/
structure RowsAlike (S : Span → Span → Prop) (r q : List Token × Option SyntaxError) : Prop where
  tokens : List.Forall₂ (Token.Alike S) r.1 q.1
  error : Option.Rel (SyntaxError.Alike S) r.2 q.2

namespace Parser

/-! ## One equation for each kind of token -/

section Equations

variable {depth : Nat} {p : Parser}

theorem form_openParen (h : p.current.kind = .openParen) :
    form (depth + 1) p = (list (form depth) p).map .expr := by
  unfold form
  split <;> simp_all

theorem form_none (h : p.current.kind = .closeParen ∨ p.current.kind = .eof) :
    form (depth + 1) p =
      .failed (.malformed ⟨.noForm p.current.kind, some p.current.span⟩) p := by
  unfold form
  split <;> simp_all

theorem form_quote (h : p.current.kind = .quote) (hp : p.current.kind ≠ .eof) :
    form (depth + 1) p =
      match p.take hp with
      | .failed failure q => .failed failure q
      | .done () q hq =>
        match form depth q with
        | .failed failure r => .failed failure r
        | .done node r hr =>
          match quote p.current.span node with
          | .ok quoted => .done quoted r (hr.trans hq)
          | .error failure => .failed failure r := by
  rw [form]
  split
  case h_4 => rfl
  all_goals
    rename_i hother
    rw [h] at hother
    cases hother

/-- A token that is a form by itself is taken first and read then. -/
theorem form_literal (hopen : p.current.kind ≠ .openParen) (hclose : p.current.kind ≠ .closeParen)
    (hquote : p.current.kind ≠ .quote) (hp : p.current.kind ≠ .eof) :
    form (depth + 1) p =
      match p.take hp with
      | .failed failure q => .failed failure q
      | .done () q lt =>
        match atom p.current with
        | .ok node => .done node q lt
        | .error failure => .failed failure q := by
  rw [form]
  split
  case h_1 hkind => exact absurd hkind hopen
  case h_2 hkind => exact absurd hkind hclose
  case h_3 hkind => exact absurd hkind hp
  case h_4 hkind => exact absurd hkind hquote
  all_goals rfl

end Equations

/-! ## Steps that are alike -/

/-- Steps to the same value with rows behind it that are alike, or to failures that are. -/
inductive Step.Alike (S : Span → Span → Prop) {α : Type} {bound bound' : Nat} :
    Step α bound → Step α bound' → Prop where
  | done {value : α} {p q : Parser} {hp : p.size < bound} {hq : q.size < bound'}
      (h : RowsAlike S p.tokens q.tokens) : Alike S (.done value p hp) (.done value q hq)
  | failed {f g : ReadFailure} {p q : Parser} (h : f.Alike S g) :
      Alike S (.failed f p) (.failed g q)

variable {S : Span → Span → Prop} {p q : Parser}

theorem Step.Alike.map {α β : Type} {bound bound' : Nat} {s : Step α bound} {s' : Step α bound'}
    (h : s.Alike S s') (f : α → β) : (s.map f).Alike S (s'.map f) := by
  cases h with
  | done h => exact .done h
  | failed h => exact .failed h

theorem tokens_ne_nil (p : Parser) : p.tokens.1 ≠ [] := List.ne_nil_of_mem p.current_mem_tokens

theorem current_alike (h : RowsAlike S p.tokens q.tokens) : p.current.Alike S q.current := by
  obtain ⟨htokens, _⟩ := h
  unfold tokens at htokens
  split at htokens <;> split at htokens <;> exact (List.forall₂_cons.mp htokens).1

/-- An error at the token ahead. -/
theorem malformed_alike (h : p.current.Alike S q.current) (cause : SyntaxCause) :
    ReadFailure.Alike S (.malformed ⟨cause, some p.current.span⟩)
      (.malformed ⟨cause, some q.current.span⟩) :=
  .malformed ⟨rfl, .some h.place⟩

theorem take_alike (h : RowsAlike S p.tokens q.tokens) (hp : p.current.kind ≠ .eof)
    (hq : q.current.kind ≠ .eof) : (p.take hp).Alike S (q.take hq) := by
  obtain ⟨htokens, herror⟩ := h
  rcases p.take_cases hp with ⟨p', lt, hp', hrow⟩ | ⟨e, p', hp', hrow⟩ <;>
    rcases q.take_cases hq with ⟨q', lt', hq', hrow'⟩ | ⟨f, q', hq', hrow'⟩ <;>
    rw [hp', hq'] <;> rw [hrow, hrow'] at htokens herror
  · exact .done ⟨(List.forall₂_cons.mp htokens).2, herror⟩
  · -- one row goes on and the other does not
    have hnil := List.forall₂_nil_right_iff.mp (List.forall₂_cons.mp htokens).2
    exact absurd hnil p'.tokens_ne_nil
  · have hnil := List.forall₂_nil_left_iff.mp (List.forall₂_cons.mp htokens).2
    exact absurd hnil q'.tokens_ne_nil
  · cases herror with
    | some herror => exact .failed (.malformed herror)

theorem close_alike (h : RowsAlike S p.tokens q.tokens) : p.close.Alike S q.close := by
  have hcurrent := current_alike h
  by_cases hclose : p.current.kind = .closeParen
  · have hclose' : q.current.kind = .closeParen := by rw [← hcurrent.kind, hclose]
    rw [close, close, dif_pos hclose, dif_pos hclose']
    exact take_alike h _ _
  · have hclose' : q.current.kind ≠ .closeParen := by rwa [← hcurrent.kind]
    rw [close, close, dif_neg hclose, dif_neg hclose', ← hcurrent.kind]
    exact .failed (malformed_alike hcurrent _)

section Forms

variable {form : (p : Parser) → Step Node p.size}

theorem forms_alike (stops : TokenKind → Bool)
    (hform : ∀ p q, RowsAlike S p.tokens q.tokens → (form p).Alike S (form q)) (p q : Parser)
    (h : RowsAlike S p.tokens q.tokens) : (forms stops form p).Alike S (forms stops form q) := by
  have hhead := hform p q h
  rw [forms, forms, (current_alike h).kind]
  split
  · exact .done h
  · generalize form p = s at hhead ⊢
    generalize form q = s' at hhead ⊢
    cases hhead with
    | failed hf => exact .failed hf
    | @done node p' q' lt lt' hrows =>
      have htail := forms_alike stops hform p' q' hrows
      simp only
      generalize forms stops form p' = t at htail ⊢
      generalize forms stops form q' = t' at htail ⊢
      cases htail with
      | failed hf => exact .failed hf
      | done hrows' => exact .done hrows'
termination_by p.size

theorem list_alike (hform : ∀ p q, RowsAlike S p.tokens q.tokens → (form p).Alike S (form q))
    (h : RowsAlike S p.tokens q.tokens) : (list form p).Alike S (list form q) := by
  have hcurrent := current_alike h
  by_cases hopen : p.current.kind = .openParen
  · have hopen' : q.current.kind = .openParen := by rw [← hcurrent.kind, hopen]
    have htake := take_alike h (by simp [hopen]) (by simp [hopen'])
    rw [list, list, dif_pos hopen, dif_pos hopen']
    generalize p.take _ = s at htake ⊢
    generalize q.take _ = s' at htake ⊢
    cases htake with
    | failed hf => exact .failed hf
    | @done _ p' q' _ _ hrows =>
      have hforms := forms_alike (· == .closeParen) hform p' q' hrows
      simp only
      generalize forms _ form p' = t at hforms ⊢
      generalize forms _ form q' = t' at hforms ⊢
      cases hforms with
      | failed hf => exact .failed hf
      | @done items p'' q'' _ _ hrows' =>
        have hclose := close_alike hrows'
        simp only
        generalize p''.close = u at hclose ⊢
        generalize q''.close = u' at hclose ⊢
        cases hclose with
        | failed hf => exact .failed hf
        | done hrows'' => exact .done hrows''
  · have hopen' : q.current.kind ≠ .openParen := by rwa [← hcurrent.kind]
    rw [list, list, dif_neg hopen, dif_neg hopen', ← hcurrent.kind]
    exact .failed (malformed_alike hcurrent _)

end Forms

theorem atom_alike {t u : Token} (h : t.Alike S u) : ResultsAlike S (atom t) (atom u) := by
  have hplace : ∀ cause, ReadFailure.Alike S (.malformed ⟨cause, some t.span⟩)
      (.malformed ⟨cause, some u.span⟩) := fun cause => .malformed ⟨rfl, .some h.place⟩
  unfold atom
  rw [← h.kind, ← h.content]
  split
  · split
    · exact .ok _
    · exact .error (.fault _)
  · exact .ok _
  · exact .ok _
  · exact .ok _
  · split
    · exact .ok _
    · exact .error (hplace _)
  · exact .error (hplace _)

theorem quote_alike {s s' : Span} (h : S s s') (node : Node) :
    ResultsAlike S (quote s node) (quote s' node) := by
  cases node with
  | expr items => exact .ok _
  | name x => exact .ok _
  | _ => exact .error (.malformed ⟨rfl, .some h⟩)

section Form

variable {depth : Nat}

theorem form_alike_quote
    (ih : ∀ p q, RowsAlike S p.tokens q.tokens → (form depth p).Alike S (form depth q))
    (h : RowsAlike S p.tokens q.tokens) (hquote : p.current.kind = .quote) :
    (form (depth + 1) p).Alike S (form (depth + 1) q) := by
  have hcurrent := current_alike h
  have hquote' : q.current.kind = .quote := by rw [← hcurrent.kind, hquote]
  have heof : p.current.kind ≠ .eof := by simp [hquote]
  have heof' : q.current.kind ≠ .eof := by simp [hquote']
  have htake := take_alike h heof heof'
  rw [form_quote hquote heof, form_quote hquote' heof']
  generalize p.take heof = s at htake ⊢
  generalize q.take heof' = s' at htake ⊢
  cases htake with
  | failed hf => exact .failed hf
  | @done _ p' q' _ _ hrows =>
    have hform := ih p' q' hrows
    simp only
    generalize form depth p' = t at hform ⊢
    generalize form depth q' = t' at hform ⊢
    cases hform with
    | failed hf => exact .failed hf
    | @done node _ _ _ _ hrows' =>
      -- only where the quote stands can differ now, and that shows in the error alone
      have hquoted := quote_alike hcurrent.place node
      simp only
      generalize quote p.current.span node = r at hquoted ⊢
      generalize quote q.current.span node = r' at hquoted ⊢
      cases hquoted with
      | ok quoted => exact .done hrows'
      | error hf => exact .failed hf

theorem form_alike_literal (h : RowsAlike S p.tokens q.tokens)
    (hopen : p.current.kind ≠ .openParen) (hclose : p.current.kind ≠ .closeParen)
    (hquote : p.current.kind ≠ .quote) (heof : p.current.kind ≠ .eof) :
    (form (depth + 1) p).Alike S (form (depth + 1) q) := by
  have hcurrent := current_alike h
  have hkind := hcurrent.kind
  have heof' : q.current.kind ≠ .eof := by rwa [← hkind]
  have htake := take_alike h heof heof'
  have hatom := atom_alike hcurrent
  rw [form_literal hopen hclose hquote heof, form_literal (by rwa [← hkind])
    (by rwa [← hkind]) (by rwa [← hkind]) heof']
  generalize p.take heof = s at htake ⊢
  generalize q.take heof' = s' at htake ⊢
  cases htake with
  | failed hf => exact .failed hf
  | done hrows =>
    simp only
    generalize atom p.current = r at hatom ⊢
    generalize atom q.current = r' at hatom ⊢
    cases hatom with
    | ok node => exact .done hrows
    | error hf => exact .failed hf

end Form

/-- Parsers that are before rows that are alike read them alike. -/
theorem form_alike (depth : Nat) : ∀ p q, RowsAlike S p.tokens q.tokens →
    (form depth p).Alike S (form depth q) := by
  induction depth with
  | zero =>
    intro p q _
    exact .failed (.fault _)
  | succ depth ih =>
    intro p q h
    have hcurrent := current_alike h
    have hkind := hcurrent.kind
    by_cases hopen : p.current.kind = .openParen
    · rw [form_openParen hopen, form_openParen (by rw [← hkind, hopen])]
      exact (list_alike ih h).map Node.expr
    by_cases hnone : p.current.kind = .closeParen ∨ p.current.kind = .eof
    · rw [form_none hnone, form_none (by rwa [← hkind]), ← hkind]
      exact .failed (malformed_alike hcurrent _)
    obtain ⟨hclose, heof⟩ := not_or.mp hnone
    by_cases hquote : p.current.kind = .quote
    · exact form_alike_quote ih h hquote
    · exact form_alike_literal h hopen hclose hquote heof

end Parser

/-! ## Whole texts -/

theorem ReadFailure.Alike.ofText {S : Span → Span → Prop} {f g : ReadFailure} (h : f.Alike S g) :
    f.ofText.Alike S g.ofText := by
  cases h with
  | malformed h => exact .malformed h
  | fault f =>
    cases f with
    | nestedTooDeeply => exact .malformed ⟨rfl, .none⟩
    | _ => exact .fault _

theorem ResultsAlike.ofText {S : Span → Span → Prop} {α : Type} {r q : Except ReadFailure α}
    (h : ResultsAlike S r q) :
    ResultsAlike S (r.mapError ReadFailure.ofText) (q.mapError ReadFailure.ofText) := by
  cases h with
  | ok value => exact .ok value
  | error h => exact .error h.ofText

theorem ResultsAlike.map {S : Span → Span → Prop} {α β : Type} {r q : Except ReadFailure α}
    (h : ResultsAlike S r q) (f : α → β) : ResultsAlike S (r.map f) (q.map f) := by
  cases h with
  | ok value => exact .ok _
  | error h => exact .error h

/-- What is left of a text is read alike from rows that are alike. -/
theorem Parser.toEnd_alike {S : Span → Span → Prop} {p q : Parser} (levels : Nat)
    (h : RowsAlike S p.tokens q.tokens) :
    ResultsAlike S (p.toEnd levels).result (q.toEnd levels).result := by
  have hforms := forms_alike (fun _ => false) (form_alike levels) p q h
  rw [toEnd, toEnd]
  generalize forms _ _ p = s at hforms ⊢
  generalize forms _ _ q = s' at hforms ⊢
  cases hforms with
  | done => exact .ok _
  | failed hf => exact .error hf

/-- Texts with rows of tokens that are alike are read alike with as many levels. -/
theorem readLevels_alike {S : Span → Span → Prop} {cs ds : List Char} (levels : Nat)
    (h : RowsAlike S (Cursor.ofText cs).tokens (Cursor.ofText ds).tokens) :
    ResultsAlike S (readLevels levels cs) (readLevels levels ds) := by
  cases hp : Parser.start (.ofText cs) with
  | error e =>
    rw [Parser.start_error hp] at h
    cases hq : Parser.start (.ofText ds) with
    | error f =>
      rw [Parser.start_error hq] at h
      rw [readLevels_of_start_error hp, readLevels_of_start_error hq]
      cases h.error with
      | some herror => exact .error (.malformed herror)
    | ok q =>
      rw [← Parser.start_ok hq] at h
      exact absurd (List.forall₂_nil_left_iff.mp h.tokens) q.tokens_ne_nil
  | ok p =>
    rw [← Parser.start_ok hp] at h
    cases hq : Parser.start (.ofText ds) with
    | error f =>
      rw [Parser.start_error hq] at h
      exact absurd (List.forall₂_nil_right_iff.mp h.tokens) p.tokens_ne_nil
    | ok q =>
      rw [← Parser.start_ok hq] at h
      rw [readLevels_of_start_ok hp, readLevels_of_start_ok hq]
      exact Parser.toEnd_alike levels h

end MiniLisp
