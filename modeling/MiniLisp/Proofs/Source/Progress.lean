import MiniLisp.Proofs.Source.Levels

/-!
# Reading makes progress

No loop of the reader has a counter of its own. Each ends because a round takes a token at least:
what is left to read bounds the rounds of a loop together with those of all loops inside it
(`Parser.roundsWith_le`). The limit on nesting is not what ends them, since a form has no more
levels than there is left to read (`Parser.forms_not_deep`). `reading_progresses` puts this
together with what going on does.
-/

namespace MiniLisp

namespace Parser

variable {cs : List Char} {p q : Parser}

/-! ## Rounds -/

/-- The parsers at which a loop over forms begins its rounds: one for each form that it reads, and
one for the form that ends it if it cannot be read. -/
def rounds (stops : TokenKind → Bool) (form : (p : Parser) → Step Node p.size) (p : Parser) :
    List Parser :=
  if p.current.kind = .eof || stops p.current.kind then []
  else
    match form p with
    | .failed _ _ => [p]
    | .done _ q _ => p :: rounds stops form q
termination_by p.size

/-- How many rounds a loop over forms begins, if reading the form of a round begins as many as
`within` says. -/
def roundsWith (within : Parser → Nat) (stops : TokenKind → Bool)
    (form : (p : Parser) → Step Node p.size) (p : Parser) : Nat :=
  (rounds stops form p).foldr (fun r n => within r + 1 + n) 0

theorem ne_eof_of_openParen (h : p.current.kind = .openParen) : p.current.kind ≠ .eof := by
  simp [h]

theorem ne_eof_of_quote (h : p.current.kind = .quote) : p.current.kind ≠ .eof := by
  simp [h]

/-- How many rounds the loops begin in which one form is read, the innermost included. -/
def roundsWithin : Nat → Parser → Nat
  | 0, _ => 0
  | depth + 1, p =>
    match h : p.current.kind with
    | .openParen =>
      match p.take (ne_eof_of_openParen h) with
      | .failed _ _ => 0
      | .done () q _ => roundsWith (roundsWithin depth) (· == .closeParen) (form depth) q
    | .quote =>
      match p.take (ne_eof_of_quote h) with
      | .failed _ _ => 0
      | .done () q _ => roundsWithin depth q
    | _ => 0

/-- How many rounds a loop over forms begins, with those of all loops inside it. -/
def allRounds (stops : TokenKind → Bool) (depth : Nat) (p : Parser) : Nat :=
  roundsWith (roundsWithin depth) stops (form depth) p

section Rounds

variable {form : (p : Parser) → Step Node p.size} {stops : TokenKind → Bool}

theorem rounds_of_stop (h : (decide (p.current.kind = .eof) || stops p.current.kind) = true) :
    rounds stops form p = [] := by
  rw [rounds, if_pos h]

theorem rounds_of_failed (h : ¬ (decide (p.current.kind = .eof) || stops p.current.kind) = true)
    {f : ReadFailure} (hform : form p = .failed f q) : rounds stops form p = [p] := by
  rw [rounds, if_neg h, hform]

theorem rounds_of_done (h : ¬ (decide (p.current.kind = .eof) || stops p.current.kind) = true)
    {node : Node} {lt : q.size < p.size} (hform : form p = .done node q lt) :
    rounds stops form p = p :: rounds stops form q := by
  rw [rounds, if_neg h, hform]

/-- A loop gives what its rounds give, in their order, up to the first that gives none. -/
theorem forms_result (p : Parser) :
    (forms stops form p).result = (rounds stops form p).mapM fun r => (form r).result := by
  rw [forms]
  split
  · rename_i h
    rw [rounds_of_stop h]
    rfl
  · rename_i h
    split
    · rename_i f q hform
      rw [rounds_of_failed h hform]
      simp [hform, Step.result]
    · rename_i node q lt hform
      rw [rounds_of_done h hform, List.mapM_cons, hform, ← forms_result q]
      split
      · rename_i f r htail
        rw [htail]
        rfl
      · rename_i nodes r lt' htail
        rw [htail]
        rfl
termination_by p.size

/-- How much a step leaves to read; one that fails leaves nothing that is read. -/
def Step.left {α : Type} {bound : Nat} : Step α bound → Nat
  | .done _ next _ => next.size
  | .failed _ _ => 0

theorem Step.left_lt {α : Type} {bound : Nat} (s : Step α bound) (h : 0 < bound) :
    s.left < bound := by
  cases s with
  | done _ next lt => exact lt
  | failed _ _ => exact h

theorem size_pos (h : p.current.kind ≠ .eof) : 0 < p.size := by
  simp [size, h]

/-- The rounds of a loop and what it leaves to read are no more than what was left before it. -/
theorem roundsWith_le {within : Parser → Nat}
    (hwithin : ∀ r, r.current.kind ≠ .eof → within r + (form r).left < r.size) (p : Parser) :
    roundsWith within stops form p + (forms stops form p).left ≤ p.size := by
  unfold roundsWith
  rw [forms]
  split
  · rename_i h
    rw [rounds_of_stop h]
    simp [Step.left]
  · rename_i h
    have heof : p.current.kind ≠ .eof := fun heq => h (by simp [heq])
    have hhead := hwithin p heof
    split
    · rename_i f q hform
      rw [rounds_of_failed h hform]
      simp only [List.foldr_cons, List.foldr_nil, Step.left]
      omega
    · rename_i node q lt hform
      -- the rounds inside the form and this round itself are paid for by what the form takes
      have htail := roundsWith_le hwithin q
      unfold roundsWith at htail
      rw [hform] at hhead
      simp only [Step.left] at hhead
      rw [rounds_of_done h hform, List.foldr_cons]
      split
      · rename_i f r htail'
        rw [htail'] at htail
        simp only [Step.left] at htail ⊢
        omega
      · rename_i nodes r lt' htail'
        rw [htail'] at htail
        simp only [Step.left] at htail ⊢
        omega
termination_by p.size

end Rounds

/-! ### Rounds of one form -/

section Form

variable {depth : Nat}

theorem roundsWithin_openParen (h : p.current.kind = .openParen) (hp : p.current.kind ≠ .eof) :
    roundsWithin (depth + 1) p =
      match p.take hp with
      | .failed _ _ => 0
      | .done () q _ => roundsWith (roundsWithin depth) (· == .closeParen) (form depth) q := by
  rw [roundsWithin]
  split <;> simp_all

theorem roundsWithin_quote (h : p.current.kind = .quote) (hp : p.current.kind ≠ .eof) :
    roundsWithin (depth + 1) p =
      match p.take hp with
      | .failed _ _ => 0
      | .done () q _ => roundsWithin depth q := by
  rw [roundsWithin]
  split <;> simp_all

theorem roundsWithin_other (hopen : p.current.kind ≠ .openParen)
    (hquote : p.current.kind ≠ .quote) : roundsWithin (depth + 1) p = 0 := by
  rw [roundsWithin]
  split <;> simp_all

theorem Step.left_map {α β : Type} {bound : Nat} (f : α → β) (s : Step α bound) :
    (s.map f).left = s.left := by
  cases s <;> rfl

/-- A list leaves no more than the loop over its items. -/
theorem list_left_le {form : (p : Parser) → Step Node p.size} {lt : q.size < p.size}
    (h : p.current.kind = .openParen) (hp : p.current.kind ≠ .eof)
    (htake : p.take hp = .done () q lt) :
    (list form p).left ≤ (forms (· == .closeParen) form q).left := by
  rw [list, dif_pos h, htake]
  simp only
  split
  · exact Nat.zero_le _
  · rename_i items r lt' hforms
    split
    · exact Nat.zero_le _
    · rename_i s lt'' hclose
      rw [hforms]
      exact lt''.le

/-- A quoted form leaves no more than the form behind the quote. -/
theorem form_quote_left_le {lt : q.size < p.size} (h : p.current.kind = .quote)
    (hp : p.current.kind ≠ .eof) (htake : p.take hp = .done () q lt) :
    (form (depth + 1) p).left ≤ (form depth q).left := by
  rw [form_quote h hp, htake]
  simp only
  split
  · exact Nat.zero_le _
  · rename_i node r lt' hform
    rw [hform]
    split
    · exact le_rfl
    · exact Nat.zero_le _

theorem form_eof_left (h : p.current.kind = .eof) : (form depth p).left = 0 := by
  cases depth with
  | zero => rfl
  | succ depth =>
    rw [form_none (.inr h)]
    rfl

theorem roundsWithin_eof (h : p.current.kind = .eof) : roundsWithin depth p = 0 := by
  cases depth with
  | zero => rfl
  | succ depth => exact roundsWithin_other (by simp [h]) (by simp [h])

/-- A form begins with a token that no round inside it begins with. -/
theorem roundsWithin_lt (depth : Nat) (hp : p.current.kind ≠ .eof) :
    roundsWithin depth p + (form depth p).left < p.size := by
  induction depth generalizing p with
  | zero => exact (Nat.zero_add _).trans_lt ((form 0 p).left_lt (size_pos hp))
  | succ depth ih =>
    by_cases hopen : p.current.kind = .openParen
    · rw [roundsWithin_openParen hopen hp, form_openParen hopen, Step.left_map]
      cases htake : p.take hp with
      | failed f q => exact (Nat.zero_add _).trans_lt (Step.left_lt _ (size_pos hp))
      | done _ q lt =>
        have hrounds : roundsWith (roundsWithin depth) (· == .closeParen) (form depth) q +
            (forms (· == .closeParen) (form depth) q).left ≤ q.size :=
          roundsWith_le (fun r hr => ih hr) q
        have hlist : (list (form depth) p).left ≤ (forms (· == .closeParen) (form depth) q).left :=
          list_left_le hopen hp htake
        simp only
        omega
    by_cases hquote : p.current.kind = .quote
    · rw [roundsWithin_quote hquote hp]
      cases htake : p.take hp with
      | failed f q => exact (Nat.zero_add _).trans_lt (Step.left_lt _ (size_pos hp))
      | done _ q lt =>
        have hquoted : (form (depth + 1) p).left ≤ (form depth q).left :=
          form_quote_left_le hquote hp htake
        -- behind the quote the text may end, and then there is no form to count
        have hinner : roundsWithin depth q + (form depth q).left ≤ q.size := by
          by_cases hq : q.current.kind = .eof
          · rw [roundsWithin_eof hq, form_eof_left hq]
            omega
          · exact (ih hq).le
        simp only
        omega
    · rw [roundsWithin_other hopen hquote]
      exact (Nat.zero_add _).trans_lt (Step.left_lt _ (size_pos hp))

end Form

/-- All loops together begin no more rounds than there are characters left. -/
theorem allRounds_le (stops : TokenKind → Bool) (depth : Nat) (p : Parser) :
    allRounds stops depth p ≤ p.size := by
  have hrounds : allRounds stops depth p + (forms stops (form depth) p).left ≤ p.size :=
    roundsWith_le (fun r hr => roundsWithin_lt depth hr) p
  exact (Nat.le_add_right _ _).trans hrounds

theorem length_rounds_le (stops : TokenKind → Bool) (depth : Nat) (p : Parser) :
    (rounds stops (form depth) p).length ≤ allRounds stops depth p := by
  unfold allRounds roundsWith
  induction rounds stops (form depth) p with
  | nil => exact Nat.le_refl 0
  | cons r rs ih =>
    rw [List.length_cons, List.foldr_cons]
    omega

/-- Every round begins at a parser that is reached. -/
theorem Reached.of_mem_rounds (stops : TokenKind → Bool) (depth : Nat) (p : Parser)
    (h : Reached cs p) : ∀ r ∈ rounds stops (form depth) p, Reached cs r := by
  have hform := h.after_form depth
  rw [rounds]
  split
  · intro r hr
    cases hr
  · split
    · intro r hr
      rwa [List.mem_singleton.mp hr]
    · rename_i node q lt heq
      rw [heq] at hform
      intro r hr
      rcases List.mem_cons.mp hr with rfl | hr
      · exact h
      · exact Reached.of_mem_rounds stops depth q hform r hr
termination_by p.size

/-! ## Progress -/

theorem Step.exists_done {α : Type} {bound : Nat} {s : Step α bound} {value : α}
    (h : s.result = .ok value) : ∃ q lt, s = .done value q lt := by
  cases s with
  | done _ q lt =>
    cases h
    exact ⟨q, lt, rfl⟩
  | failed _ _ => cases h

/-- What reading from a parser of a text does. A form goes from it to another parser of the text,
and leaves a token ahead that begins later than the one it began with. A loop over forms gives what
its rounds give, each of which begins at a parser of the text; with the rounds of all loops inside
it there are no more of them than the text has characters. The loop ends in one way, and not for
want of levels, if there are more levels than characters. -/
structure Progresses (cs : List Char) (p : Parser) : Prop where
  within : p.cursor.Within cs
  form_reached : ∀ depth, Reached cs (form depth p).parser
  form_advances : ∀ depth node q lt, form depth p = .done node q lt →
    p.current.span.start < q.current.span.start
  rounds_result : ∀ stops depth, (forms stops (form depth) p).result =
    (rounds stops (form depth) p).mapM fun r => (form depth r).result
  rounds_reached : ∀ stops depth, ∀ r ∈ rounds stops (form depth) p, Reached cs r
  rounds_le : ∀ stops depth, (rounds stops (form depth) p).length ≤ allRounds stops depth p ∧
    allRounds stops depth p ≤ cs.length
  ending : ∀ stops, ∃ s : Step (List Node) (p.size + 1),
    s.result ≠ .error (.fault .nestedTooDeeply) ∧
    ∀ depth, cs.length < depth → forms stops (form depth) p = s

theorem Reached.progresses (h : Reached cs p) : Progresses cs p := by
  have hplaced := h.placed
  have hsize := hplaced.size_le
  refine ⟨hplaced.within, h.after_form, ?_, ?_, ?_, ?_, ?_⟩
  · intro depth node q lt hform
    exact hplaced.form_advances hform
  · intro stops depth
    exact forms_result p
  · intro stops depth
    exact h.of_mem_rounds stops depth p
  · intro stops depth
    exact ⟨length_rounds_le stops depth p, (allRounds_le stops depth p).trans hsize⟩
  · -- one level more than the text has characters is as good as any number above
    intro stops
    have hdeep : ¬ (forms stops (form (cs.length + 1)) p).Deep := forms_not_deep stops (by omega)
    exact ⟨_, hdeep, fun depth hdepth => forms_of_le hdepth stops p hdeep⟩

end Parser

/-- Reading a text comes to an end of its own. -/
theorem exists_readLevels (cs : List Char) : ∃ ending, ending ≠ .error (.fault .nestedTooDeeply) ∧
    ∀ levels, cs.length < levels → readLevels levels cs = ending := by
  have hwithin : ReadsWithin (cs.length + 1) cs := readsWithin_of_length_lt (Nat.lt_succ_self _)
  exact ⟨_, hwithin, fun levels hlevels => readLevels_of_le hwithin hlevels⟩

/-- Reading makes progress. From any cursor of a text that is before a character that is not blank,
the next token moves the cursor on, or is an error; reading makes progress from every parser that
it can come to; and a whole text, malformed or not, is read to one end with any number of levels
above its length, which is not that the levels are used up. -/
theorem reading_progresses [Host] (cs : List Char) :
    (∀ c : Cursor, c.Within cs → (∃ ch ∈ c.rest, Text.isBlank ch = false) →
      (∃ e, c.next.1 = .error e) ∨ ∃ t d, c.next = (.ok t, d) ∧ c.pos < d.pos ∧ d.Within cs) ∧
    (∀ p, Parser.Reached cs p → Parser.Progresses cs p) ∧
    parse cs = (readLevels (Host.levels cs) cs).mapError ReadFailure.ofText ∧
    ∃ ending, ending ≠ .error (.fault .nestedTooDeeply) ∧
      ∀ levels, cs.length < levels → readLevels levels cs = ending := by
  refine ⟨?_, fun p hp => hp.progresses, parse_eq_readLevels cs, exists_readLevels cs⟩
  intro c hc hrest
  cases hnext : c.next with
  | mk result d =>
    cases result with
    | error e => exact .inl ⟨e, rfl⟩
    | ok t => exact .inr ⟨t, d, rfl, Cursor.next_advances hrest hnext, (hc.of_next hnext).1⟩

/-- A list with a quoted list in it, which has an empty string, and a parenthesis too many. -/
theorem reading_progresses_nested : ∃ cs p q node lt, cs = "('(a \"\") -1) )".toList ∧
    Parser.start (.ofText cs) = .ok p ∧ p.cursor.Within cs ∧
    (∃ ch ∈ p.cursor.rest, Text.isBlank ch = false) ∧
    ((∃ e, p.cursor.next.1 = .error e) ∨
      ∃ t d, p.cursor.next = (.ok t, d) ∧ p.cursor.pos < d.pos ∧ d.Within cs) ∧
    node = .expr [.list [.name "a", .str ""], .int (-1)] ∧
    Parser.form 4 p = .done node q lt ∧ p.current.span.start < q.current.span.start ∧
    Parser.allRounds (fun _ => false) 4 p = 6 ∧ Parser.allRounds (fun _ => false) 4 p ≤ cs.length ∧
    readLevels 20 cs = .error (.malformed ⟨.noForm .closeParen, some (Span.covering 13 1)⟩) ∧
    readLevels 20 cs = readLevels 30 cs := by
  obtain ⟨p, hp⟩ : ∃ p : Parser, p = ⟨⟨.openParen, Span.covering 0 1, ['(']⟩,
    ⟨1, ['\'', '(', 'a', ' ', '"', '"', ')', ' ', '-', '1', ')', ' ', ')']⟩⟩ := ⟨_, rfl⟩
  have hstart : Parser.start (.ofText "('(a \"\") -1) )".toList) = .ok p := by
    rw [hp]
    cbv
  have hresult : (Parser.form 4 p).result =
      .ok (.expr [.list [.name "a", .str ""], .int (-1)]) := by
    rw [hp]
    cbv
  have hrounds : Parser.allRounds (fun _ => false) 4 p = 6 := by
    rw [hp]
    decide +kernel
  obtain ⟨q, lt, hform⟩ := Parser.Step.exists_done hresult
  obtain ⟨hnext, hprogress, _, ending, _, hending⟩ :=
    reading_progresses "('(a \"\") -1) )".toList
  obtain ⟨hwithin, _, hadvances, _, _, hle, _⟩ := hprogress p (.start hstart)
  have hvisible : ∃ ch ∈ p.cursor.rest, Text.isBlank ch = false := by
    rw [hp]
    exact ⟨'a', by decide, by decide⟩
  refine ⟨_, p, q, _, lt, rfl, hstart, hwithin, hvisible, hnext _ hwithin hvisible, rfl, hform,
    hadvances _ _ _ _ hform, hrounds, (hle _ 4).2, by cbv, ?_⟩
  rw [hending 20 (by decide), hending 30 (by decide)]

end MiniLisp
