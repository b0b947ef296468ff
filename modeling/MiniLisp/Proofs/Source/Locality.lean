import MiniLisp.Proofs.Source.Placement

/-!
# Reading does not look behind

A parser that has read a form has seen the form's tokens and one token more, and of that one only
whether it can be cut. So the same tokens are read as the same form in front of any other row
(`Parser.form_local`); where no token can be cut behind them, that is the error. Rows of forms are
read on behind what was read of them (`Parser.forms_local`).
-/

namespace MiniLisp

namespace Parser

/-- A row of tokens, and the error that stops it short. -/
abbrev Row := List Token × Option SyntaxError

/-- The step takes all that is before a row and has a value; or it fails because the row is an
error and nothing else. -/
inductive Step.Lands {α : Type} {bound : Nat} (value : α) (row : Row) : Step α bound → Prop where
  | done {q : Parser} {lt : q.size < bound} (h : q.tokens = row) :
      Lands value row (.done value q lt)
  | failed {e : SyntaxError} {q : Parser} (h : row = ([], some e)) :
      Lands value row (.failed (.malformed e) q)

/-- What is read at a parser takes the token ahead at least, and is read in front of any row as it
is in front of what follows it there. -/
def LocalAt {α : Type} (step : (p : Parser) → Step α p.size) (p : Parser) : Prop :=
  (step p).Ends (fun value q => ∃ ts, p.Takes (p.current :: ts) q ∧
    ∀ p' (row : Row), p'.tokens = (p.current :: ts ++ row.1, row.2) → (step p').Lands value row)
    fun _ => True

section Forms

variable {form : (p : Parser) → Step Node p.size} {stops : TokenKind → Bool}

/-- Reading forms comes to `nodes` and goes on with the row behind them; or it fails because that
row is an error and nothing else. -/
def Continues (stops : TokenKind → Bool) (form : (p : Parser) → Step Node p.size)
    (nodes : List Node) (row : Row) (p : Parser) : Prop :=
  (∃ e q, row = ([], some e) ∧ forms stops form p = .failed (.malformed e) q) ∨
    ∃ q, q.tokens = row ∧ (forms stops form q).Ends
      (fun more r => ∃ lt, forms stops form p = .done (nodes ++ more) r lt)
      fun f => ∃ r, forms stops form p = .failed f r

theorem Continues.nil (p : Parser) : Continues stops form [] p.tokens p := by
  refine .inr ⟨p, rfl, ?_⟩
  cases forms stops form p with
  | done more r lt => exact ⟨lt, rfl⟩
  | failed f r => exact ⟨r, rfl⟩

/-- A form more at the front. -/
theorem Continues.cons {node : Node} {nodes : List Node} {row : Row} {p q : Parser}
    {lt : q.size < p.size} (hgo : ¬ (decide (p.current.kind = .eof) || stops p.current.kind) = true)
    (hform : form p = .done node q lt) (h : Continues stops form nodes row q) :
    Continues stops form (node :: nodes) row p := by
  rcases h with ⟨e, r, hrow, hforms⟩ | ⟨r, hrow, hends⟩
  · refine .inl ⟨e, r, hrow, ?_⟩
    rw [forms, if_neg hgo, hform]
    simp only [hforms]
  · refine .inr ⟨r, hrow, ?_⟩
    generalize forms stops form r = s at hends ⊢
    cases s with
    | done more s lt' =>
      obtain ⟨lt'', hforms⟩ := hends
      refine ⟨by omega, ?_⟩
      rw [forms, if_neg hgo, hform]
      simp only [hforms, List.cons_append]
    | failed f s =>
      obtain ⟨r', hforms⟩ := hends
      refine ⟨r', ?_⟩
      rw [forms, if_neg hgo, hform]
      simp only [hforms]

theorem take_lands {p : Parser} {t : Token} (row : Row) (h : p.tokens = (t :: row.1, row.2))
    (hp : p.current.kind ≠ .eof) : (p.take hp).Lands () row := by
  obtain ⟨ts, err⟩ := row
  rcases p.take_cases hp with ⟨q, lt, heq, hq⟩ | ⟨e, q, heq, hrow⟩
  · rw [heq]
    rw [hq] at h
    cases h
    exact .done rfl
  · rw [heq]
    rw [hrow] at h
    cases h
    exact .failed rfl

/-- Forms are read in front of any row as they are in front of what followed them. -/
theorem forms_local (stops : TokenKind → Bool) (hform : ∀ p, LocalAt form p) (p : Parser) :
    (forms stops form p).Ends (fun nodes q =>
      (q.current.kind = .eof ∨ stops q.current.kind = true) ∧ ∃ ts, p.Takes ts q ∧
        ∀ p' (row : Row), p'.tokens = (ts ++ row.1, row.2) → Continues stops form nodes row p')
      fun _ => True := by
  rw [forms]
  split
  · rename_i hstop
    refine ⟨by simpa using hstop, [], .refl p, ?_⟩
    intro p' row hp'
    have hrow : p'.tokens = row := hp'
    subst hrow
    exact .nil p'
  · rename_i hgo
    have hhead := hform p
    unfold LocalAt at hhead
    split
    · trivial
    · rename_i node q lt heq
      rw [heq] at hhead
      obtain ⟨ts, hts, hnode⟩ := hhead
      have htail := forms_local stops hform q
      split
      · trivial
      · rename_i nodes r lt' heq'
        rw [heq'] at htail
        obtain ⟨hend, us, hus, hnodes⟩ := htail
        refine ⟨hend, _, hts.trans hus, ?_⟩
        intro p' row hp'
        rw [List.append_assoc] at hp'
        have hcurrent : p'.current = p.current := current_eq (by rw [hp']; rfl)
        -- behind the first form the other forms' tokens follow, and the row behind these
        have hlands := hnode p' (us ++ row.1, row.2) hp'
        rw [← hcurrent] at hgo
        generalize hs : form p' = s at hlands
        cases hlands with
        | @done q' lt'' hq' => exact .cons hgo hs (hnodes q' row hq')
        | @failed e q' hrow =>
          -- the row is an error and nothing else, and there are no more forms before it
          have hnone : row = ([], some e) := by
            obtain ⟨hnil, herror⟩ := Prod.mk.inj hrow
            exact Prod.ext (List.append_eq_nil_iff.mp hnil).2 herror
          refine .inl ⟨e, q', hnone, ?_⟩
          rw [forms, if_neg hgo, hs]
termination_by p.size

/-- A list is read up to its closing parenthesis, which its items are read up to. -/
theorem list_lands {items : List Node} {o c : Token} {ts : List Token} {row : Row} {p : Parser}
    (hp : p.tokens = (o :: (ts ++ c :: row.1), row.2)) (hopen : o.kind = .openParen)
    (hclose : c.kind = .closeParen)
    (hitems : ∀ q : Parser, q.tokens = (ts ++ c :: row.1, row.2) →
      Continues (· == .closeParen) form items (c :: row.1, row.2) q) :
    (list form p).Lands items row := by
  have hcurrent : p.current.kind = .openParen := by rw [current_eq (by rw [hp]), hopen]
  have htake := take_lands (ts ++ c :: row.1, row.2) hp (by simp [hcurrent])
  unfold list
  rw [dif_pos hcurrent]
  generalize p.take _ = u at htake ⊢
  -- the parenthesis is behind the items, so neither step before it fails
  cases htake with
  | failed h => simp at h
  | @done q _ hq =>
    rcases hitems q hq with ⟨_, _, h, _⟩ | ⟨r, hr, hends⟩
    · cases h
    · have hlast : r.current.kind = .closeParen := by rw [current_eq (by rw [hr]), hclose]
      rw [forms, if_pos (by simp [hlast])] at hends
      obtain ⟨_, hforms⟩ := hends
      have htake' := take_lands row hr (by simp [hlast])
      simp only [hforms, close, dif_pos hlast, List.append_nil]
      generalize r.take _ = v at htake' ⊢
      cases htake' with
      | done h => exact .done h
      | failed h => exact .failed h

theorem list_local (hform : ∀ p, LocalAt form p) (p : Parser) : LocalAt (list form) p := by
  unfold LocalAt list
  split
  · rename_i hopen
    rcases p.take_cases (by simp [hopen]) with ⟨q, lt, heq, hq⟩ | ⟨e, q, heq, _⟩
    · rw [heq]
      have hforms := forms_local (· == .closeParen) hform q
      simp only
      split
      · trivial
      · rename_i items r lt' heq'
        rw [heq'] at hforms
        obtain ⟨_, ts, hts, hitems⟩ := hforms
        have hclose := r.close_ends
        split
        · trivial
        · rename_i s lt'' heq''
          rw [heq''] at hclose
          obtain ⟨hkind, hs⟩ := hclose
          refine ⟨ts ++ [r.current], hq.trans (hts.trans hs), ?_⟩
          intro p' row hp'
          have hrow : p'.tokens = (p.current :: (ts ++ r.current :: row.1), row.2) := by
            rw [hp']
            simp
          refine list_lands hrow hopen hkind ?_
          intro q' hq'
          exact hitems q' (r.current :: row.1, row.2) hq'
    · rw [heq]
      trivial
  · trivial

end Forms

/-! ## One form -/

section Form

variable {depth : Nat} {p : Parser}

theorem form_local_openParen (ih : ∀ p, LocalAt (form depth) p)
    (hopen : p.current.kind = .openParen) : LocalAt (form (depth + 1)) p := by
  have hlist := list_local ih p
  unfold LocalAt at hlist ⊢
  rw [form_openParen hopen]
  generalize list (form depth) p = s at hlist
  cases s with
  | failed f q => trivial
  | done items q lt =>
    obtain ⟨ts, hts, hitems⟩ := hlist
    refine ⟨ts, hts, ?_⟩
    intro p' row hp'
    have hlands := hitems p' row hp'
    rw [form_openParen (by rw [current_eq (by rw [hp']; rfl), hopen])]
    generalize list (form depth) p' = s at hlands
    cases hlands with
    | done h => exact .done h
    | failed h => exact .failed h

theorem form_local_quote (ih : ∀ p, LocalAt (form depth) p) (hquote : p.current.kind = .quote)
    (heof : p.current.kind ≠ .eof) : LocalAt (form (depth + 1)) p := by
  unfold LocalAt
  rw [form_quote hquote heof]
  rcases p.take_cases heof with ⟨q, lt, heq, hq⟩ | ⟨e, q, heq, _⟩
  · rw [heq]
    have hform := ih q
    unfold LocalAt at hform
    simp only
    split
    · trivial
    · rename_i node r lt' heq'
      rw [heq'] at hform
      obtain ⟨ts, hts, hnode⟩ := hform
      split
      · rename_i quoted hquoted
        refine ⟨_, hq.trans hts, ?_⟩
        intro p' row hp'
        have hcurrent : p'.current = p.current := current_eq (by rw [hp']; rfl)
        have heof' : p'.current.kind ≠ .eof := by rwa [hcurrent]
        have htake := take_lands (q.current :: ts ++ row.1, row.2) hp' heof'
        rw [form_quote (by rw [hcurrent, hquote]) heof', hcurrent]
        generalize p'.take heof' = u at htake ⊢
        cases htake with
        | failed h => simp at h
        | @done q' _ hq' =>
          have hlands := hnode q' row hq'
          simp only
          generalize form depth q' = v at hlands ⊢
          cases hlands with
          | failed h => exact .failed h
          | done h =>
            simp only [hquoted]
            exact .done h
      · trivial
  · rw [heq]
    trivial

theorem form_local_literal (hopen : p.current.kind ≠ .openParen)
    (hclose : p.current.kind ≠ .closeParen) (hquote : p.current.kind ≠ .quote)
    (heof : p.current.kind ≠ .eof) : LocalAt (form (depth + 1)) p := by
  unfold LocalAt
  rw [form_literal hopen hclose hquote heof]
  rcases p.take_cases heof with ⟨q, lt, heq, hq⟩ | ⟨e, q, heq, _⟩
  · rw [heq]
    simp only
    split
    · rename_i node hatom
      refine ⟨[], hq, ?_⟩
      intro p' row hp'
      have hcurrent : p'.current = p.current := current_eq (by rw [hp']; rfl)
      have heof' : p'.current.kind ≠ .eof := by rwa [hcurrent]
      have htake := take_lands row hp' heof'
      rw [form_literal (by rwa [hcurrent]) (by rwa [hcurrent]) (by rwa [hcurrent]) heof',
        hcurrent]
      generalize p'.take heof' = u at htake ⊢
      cases htake with
      | failed h => exact .failed h
      | done h =>
        simp only [hatom]
        exact .done h
    · trivial
  · rw [heq]
    trivial

end Form

/-- A form is read in front of any row as it is in front of what followed it. -/
theorem form_local (depth : Nat) : ∀ p, LocalAt (form depth) p := by
  induction depth with
  | zero =>
    intro p
    trivial
  | succ depth ih =>
    intro p
    by_cases hopen : p.current.kind = .openParen
    · exact form_local_openParen ih hopen
    by_cases hnone : p.current.kind = .closeParen ∨ p.current.kind = .eof
    · unfold LocalAt
      rw [form_none hnone]
      trivial
    obtain ⟨hclose, heof⟩ := not_or.mp hnone
    by_cases hquote : p.current.kind = .quote
    · exact form_local_quote ih hquote heof
    · exact form_local_literal hopen hclose hquote heof

end Parser

end MiniLisp
