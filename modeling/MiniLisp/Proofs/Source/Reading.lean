import MiniLisp.Proofs.Source.Grammar

/-!
# Reading follows the grammar

The parser cuts tokens as it goes and looks one token ahead; the grammar knows whole rows of
tokens only. `Parser.tokens` is the row that a parser has before it, and every step of reading
takes the front of that row: what `Parser.form` reads it is spelled by
(`Parser.form_ends`), and what spells a node of no great depth it reads
(`Parser.form_reads`). `parse_eq_ok_iff_spells` is what follows for whole texts.
-/

namespace MiniLisp

namespace Parser

/-- The tokens from the one ahead on, and the error that stops them short. -/
def tokens (p : Parser) : List Token × Option SyntaxError :=
  if p.current.kind = .eof then ([p.current], none)
  else (p.current :: p.cursor.tokens.1, p.cursor.tokens.2)

/-- From one parser to the other, these tokens have been taken. -/
def Takes (p : Parser) (ts : List Token) (q : Parser) : Prop :=
  p.tokens = (ts ++ q.tokens.1, q.tokens.2)

theorem Takes.refl (p : Parser) : p.Takes [] p := rfl

theorem Takes.trans {p q r : Parser} {ts us : List Token} (hpq : p.Takes ts q)
    (hqr : q.Takes us r) : p.Takes (ts ++ us) r := by
  rw [Takes, hpq, hqr, List.append_assoc]

theorem Takes.mem {p q : Parser} {ts : List Token} (h : p.Takes ts q) {t : Token}
    (ht : t ∈ q.tokens.1) : t ∈ p.tokens.1 := by
  rw [h]
  exact List.mem_append_right ts ht

theorem current_mem_tokens (p : Parser) : p.current ∈ p.tokens.1 := by
  unfold tokens
  split <;> exact List.mem_cons_self

/-- A row of tokens begins with the token ahead. -/
theorem current_eq {p : Parser} {t : Token} {ts : List Token} (h : p.tokens.1 = t :: ts) :
    p.current = t := by
  unfold tokens at h
  split at h <;> exact (List.cons.inj h).1

theorem tokens_of_next {c d : Cursor} {t : Token} (h : c.next = (.ok t, d)) :
    c.tokens = (⟨t, d⟩ : Parser).tokens := by
  unfold tokens
  split
  · rename_i ht
    exact (Cursor.Cuts.atEnd h ht).tokens_eq
  · rename_i ht
    exact (Cursor.Cuts.token h ht d.tokens_cuts).tokens_eq

/-- Taking the token ahead takes it from the row; it fails where the row stops short. -/
theorem take_cases (p : Parser) (hp : p.current.kind ≠ .eof) :
    (∃ q lt, p.take hp = .done () q lt ∧ p.Takes [p.current] q) ∨
      ∃ e q, p.take hp = .failed (.malformed e) q ∧ p.tokens = ([p.current], some e) := by
  have htokens : p.tokens = (p.current :: p.cursor.tokens.1, p.cursor.tokens.2) := if_neg hp
  unfold take
  split
  · rename_i q hadvance
    refine .inl ⟨q, size_advance_lt hadvance hp, rfl, ?_⟩
    unfold advance at hadvance
    split at hadvance
    · rename_i t d hnext
      cases hadvance
      rw [Takes, htokens, tokens_of_next hnext]
      rfl
    · cases hadvance
  · rename_i e q hadvance
    refine .inr ⟨e, q, rfl, ?_⟩
    unfold advance at hadvance
    split at hadvance
    · cases hadvance
    · rename_i e' d hnext
      cases hadvance
      rw [htokens, (Cursor.Cuts.error hnext).tokens_eq]

/-! ## What is read is spelled -/

/-- What holds of a step: of its value and the parser behind it, or of why there is none. -/
def Step.Ends {α : Type} {bound : Nat} (s : Step α bound) (done : α → Parser → Prop)
    (failed : ReadFailure → Prop) : Prop :=
  match s with
  | .done value next _ => done value next
  | .failed failure _ => failed failure

/-- The reasons for which reading from a parser on can fail. -/
def Blames (p : Parser) : ReadFailure → Prop
  | .malformed _ | .fault .nestedTooDeeply => True
  | .fault (.literalTooLong _) =>
    ∃ t ∈ p.tokens.1, t.kind = .int ∧ Decimal.digitLimit < (Decimal.unsigned t.content).length
  | .fault _ => False

theorem Takes.blames {p q : Parser} {ts : List Token} (h : p.Takes ts q) {f : ReadFailure}
    (hf : q.Blames f) : p.Blames f := by
  unfold Blames at hf ⊢
  split at hf
  · trivial
  · trivial
  · obtain ⟨t, ht, hkind, hlong⟩ := hf
    exact ⟨t, h.mem ht, hkind, hlong⟩
  · exact hf.elim

section Forms

variable {form : (p : Parser) → Step Node p.size}

theorem forms_ends (stops : TokenKind → Bool) (hform : ∀ p, (form p).Ends
      (fun node q => ∃ ts, p.Takes ts q ∧ Spells ts [node]) p.Blames) (p : Parser) :
    (forms stops form p).Ends (fun nodes q => (∃ ts, p.Takes ts q ∧ Spells ts nodes) ∧
      (q.current.kind = .eof ∨ stops q.current.kind = true)) p.Blames := by
  rw [forms]
  split
  · rename_i hstop
    refine ⟨⟨[], .refl p, spells_nil⟩, ?_⟩
    simpa using hstop
  · have hhead := hform p
    split
    · rename_i heq
      rw [heq] at hhead
      exact hhead
    · rename_i node q lt heq
      rw [heq] at hhead
      obtain ⟨ts, hts, hnode⟩ := hhead
      have htail := forms_ends stops hform q
      split
      · rename_i heq'
        rw [heq'] at htail
        exact hts.blames htail
      · rename_i nodes r lt' heq'
        rw [heq'] at htail
        obtain ⟨⟨us, hus, hnodes⟩, hend⟩ := htail
        exact ⟨⟨ts ++ us, hts.trans hus, hnode.append hnodes⟩, hend⟩
termination_by p.size

theorem close_ends (p : Parser) :
    p.close.Ends (fun _ q => p.current.kind = .closeParen ∧ p.Takes [p.current] q) p.Blames := by
  unfold close
  split
  · rename_i hkind
    rcases p.take_cases (by simp [hkind]) with ⟨q, lt, heq, hq⟩ | ⟨e, q, heq, _⟩
    · rw [heq]
      exact ⟨hkind, hq⟩
    · rw [heq]
      trivial
  · trivial

theorem list_ends (hform : ∀ p, (form p).Ends
      (fun node q => ∃ ts, p.Takes ts q ∧ Spells ts [node]) p.Blames) (p : Parser) :
    (list form p).Ends (fun items q => ∃ ts, p.Takes ts q ∧ Spells ts [.expr items])
      p.Blames := by
  unfold list
  split
  · rename_i hopen
    rcases p.take_cases (by simp [hopen]) with ⟨q, lt, heq, hq⟩ | ⟨e, q, heq, _⟩
    · rw [heq]
      have hforms := forms_ends (· == .closeParen) hform q
      simp only
      split
      · rename_i heq'
        rw [heq'] at hforms
        exact hq.blames hforms
      · rename_i items r lt' heq'
        rw [heq'] at hforms
        obtain ⟨⟨ts, hts, hitems⟩, _⟩ := hforms
        have hclose := r.close_ends
        split
        · rename_i heq''
          rw [heq''] at hclose
          exact hq.blames (hts.blames hclose)
        · rename_i s lt'' heq''
          rw [heq''] at hclose
          obtain ⟨hkind, hs⟩ := hclose
          refine ⟨_, hq.trans (hts.trans hs), ?_⟩
          exact spells_expr_iff.mpr ⟨p.current, ts, r.current, rfl, hopen, hkind, hitems⟩
    · rw [heq]
      trivial
  · trivial

end Forms

/-- The node of a token is the one that its symbol stands for. -/
theorem atom_eq_ok {t : Token} {node : Node} (h : atom t = .ok node) : Spells [t] [node] := by
  rw [spells_singleton_iff]
  unfold atom at h
  split at h
  · rename_i hkind
    split at h
    · rename_i n hn
      cases h
      simp [Token.terminal?, hkind, hn, Node.terminals]
    · cases h
  · rename_i hkind
    cases h
    simp [Token.terminal?, hkind, Node.terminals]
  · rename_i hkind
    cases h
    simp [Token.terminal?, hkind, Node.terminals]
  · rename_i hkind
    cases h
    simp [Token.terminal?, hkind, Node.terminals]
  · rename_i hkind
    split at h
    · rename_i op hop
      cases h
      simp [Token.terminal?, hkind, hop, Node.terminals]
    · cases h
  · cases h

theorem atom_blames {p : Parser} {f : ReadFailure} (h : atom p.current = .error f) :
    p.Blames f := by
  unfold atom at h
  split at h
  · rename_i hkind
    split at h
    · cases h
    · rename_i hlong
      cases h
      refine ⟨p.current, p.current_mem_tokens, hkind, ?_⟩
      by_contra hle
      simp [Decimal.readInt?, Nat.not_lt.mp hle] at hlong
  · cases h
  · cases h
  · cases h
  · split at h
    · cases h
    · cases h
      trivial
  · cases h
    trivial

theorem quote_eq_ok {span : Span} {node quoted : Node} (h : quote span node = .ok quoted) :
    quoted.terminals = .quote :: node.terminals := by
  cases node <;> cases h <;> rfl

theorem quote_blames {span : Span} {node : Node} {f : ReadFailure} (p : Parser)
    (h : quote span node = .error f) : p.Blames f := by
  cases node <;> cases h <;> trivial

/-- What a parser reads as a form is spelled by the tokens it takes; where it reads none, the
text is at fault, or too deep, or has too long a number. -/
theorem form_ends (depth : Nat) (p : Parser) :
    (form depth p).Ends (fun node q => ∃ ts, p.Takes ts q ∧ Spells ts [node]) p.Blames := by
  induction depth generalizing p with
  | zero => trivial
  | succ depth ih =>
    unfold form
    -- a list, a token that begins no form, a quote, or a literal is ahead
    split
    · have hlist := list_ends ih p
      cases heq : list (form depth) p with
      | done items q lt =>
        rw [heq] at hlist
        exact hlist
      | failed f q =>
        rw [heq] at hlist
        exact hlist
    · trivial
    · trivial
    · rename_i hquote
      rcases p.take_cases (by simp [hquote]) with ⟨q, lt, heq, hq⟩ | ⟨e, q, heq, _⟩
      · rw [heq]
        have hform := ih q
        simp only
        split
        · rename_i heq'
          rw [heq'] at hform
          exact hq.blames hform
        · rename_i node r lt' heq'
          rw [heq'] at hform
          obtain ⟨ts, hts, hnode⟩ := hform
          split
          · rename_i quoted hquoted
            refine ⟨_, hq.trans hts, ?_⟩
            exact (spells_quoted_iff node (quote_eq_ok hquoted)).mpr
              ⟨p.current, ts, rfl, hquote, hnode⟩
          · rename_i f hf
            exact quote_blames p hf
      · rw [heq]
        trivial
    all_goals
      rename_i hkind
      rcases p.take_cases (by simp [hkind]) with ⟨q, lt, heq, hq⟩ | ⟨e, q, heq, _⟩
      · rw [heq]
        simp only
        split
        · rename_i node hatom
          exact ⟨_, hq, atom_eq_ok hatom⟩
        · rename_i f hf
          exact atom_blames hf
      · rw [heq]
        trivial

/-! ## What is spelled is read -/

/-- Taking succeeds where the row goes on. -/
theorem take_of_tokens {p : Parser} {t : Token} {ts : List Token}
    (h : p.tokens.1 = t :: ts) (hts : ts ≠ []) (hp : p.current.kind ≠ .eof) :
    ∃ q lt, p.take hp = .done () q lt ∧ q.tokens = (ts, p.tokens.2) := by
  rcases p.take_cases hp with ⟨q, lt, heq, hq⟩ | ⟨e, q, _, hrow⟩
  · refine ⟨q, lt, heq, ?_⟩
    rw [hq] at h ⊢
    have htail : q.tokens.1 = ts := (List.cons.inj h).2
    rw [← htail]
  · rw [hrow] at h
    exact absurd (List.cons.inj h).2.symm hts

/-- Wherever tokens spell the node and the row goes on behind them, the reader takes just
them. -/
def Reads (form : (p : Parser) → Step Node p.size) (node : Node) : Prop :=
  ∀ (p : Parser) ts us, p.tokens.1 = ts ++ us → us ≠ [] → Spells ts [node] →
    ∃ q lt, form p = .done node q lt ∧ q.tokens = (us, p.tokens.2)

section Forms

variable {form : (p : Parser) → Step Node p.size}

/-- Forms are read up to the token that stops them. -/
theorem forms_reads (stops : TokenKind → Bool)
    (hstops : ∀ kind, stops kind = true → kind = .closeParen) {nodes : List Node}
    (hform : ∀ node ∈ nodes, Reads form node) {p : Parser} {ts us : List Token} {u : Token}
    (hrow : p.tokens.1 = ts ++ u :: us) (hts : Spells ts nodes)
    (hu : u.kind = .eof ∨ stops u.kind = true) :
    ∃ q lt, forms stops form p = .done nodes q lt ∧ q.tokens = (u :: us, p.tokens.2) := by
  induction nodes generalizing p ts with
  | nil =>
    rw [hts.eq_nil, List.nil_append] at hrow
    refine ⟨p, by omega, ?_, by rw [← hrow]⟩
    rw [forms, if_pos]
    rw [current_eq hrow]
    simpa using hu
  | cons node nodes ih =>
    obtain ⟨vs, ws, rfl, hnode, hnodes⟩ := hts.cons_inv
    obtain ⟨t, vs', hvs, hclose, heof⟩ := hnode.head
    have hcurrent : p.current = t := by
      rw [hvs] at hrow
      exact current_eq hrow
    rw [List.append_assoc] at hrow
    obtain ⟨q, lt, heq, hq⟩ := hform node List.mem_cons_self p vs _ hrow (by simp) hnode
    obtain ⟨r, lt', heq', hr⟩ :=
      ih (fun n hn => hform n (List.mem_cons_of_mem node hn)) (by rw [hq]) hnodes
    refine ⟨r, by omega, ?_, by rw [hr, hq]⟩
    -- the node's first token is neither the end nor what stops the forms
    have hgo : ¬ (decide (p.current.kind = .eof) || stops p.current.kind) = true := by
      rw [hcurrent, Bool.or_eq_true, decide_eq_true_eq, not_or]
      exact ⟨heof, fun hs => hclose (hstops _ hs)⟩
    rw [forms, if_neg hgo, heq]
    simp only [heq']

theorem list_reads {items : List Node} (hform : ∀ item ∈ items, Reads form item) {p : Parser}
    {ts us : List Token} (hrow : p.tokens.1 = ts ++ us) (hus : us ≠ [])
    (hts : Spells ts [.expr items]) :
    ∃ q lt, list form p = .done items q lt ∧ q.tokens = (us, p.tokens.2) := by
  obtain ⟨o, inner, c, rfl, ho, hc, hinner⟩ := spells_expr_iff.mp hts
  have hcurrent : p.current.kind = .openParen := by rw [current_eq hrow, ho]
  rw [List.cons_append, List.append_assoc] at hrow
  obtain ⟨q, lt, heq, hq⟩ := take_of_tokens hrow (by simp) (by simp [hcurrent])
  obtain ⟨r, lt', heq', hr⟩ := forms_reads (· == .closeParen) (by simp) hform
    (show q.tokens.1 = inner ++ c :: us by rw [hq]; rfl) hinner (by simp [hc])
  have hkind : r.current.kind = .closeParen := by rw [current_eq (by rw [hr]), hc]
  obtain ⟨s, lt'', heq'', hs⟩ := take_of_tokens (p := r) (by rw [hr]) hus (by simp [hkind])
  refine ⟨s, by omega, ?_, by rw [hs, hr, hq]⟩
  rw [list, dif_pos hcurrent, heq]
  simp only [heq', close, dif_pos hkind, heq'']

end Forms

/-- A token that spells a node by itself is read as that node. -/
theorem atom_of_spells {t : Token} {node : Node} (h : Spells [t] [node]) :
    atom t = .ok node := by
  rw [spells_singleton_iff] at h
  unfold Token.terminal? at h
  unfold atom
  cases node <;> simp only [Node.terminals, List.map_cons, List.map_nil, List.cons.injEq,
    and_true, List.map_append, reduceCtorEq, and_false] at h
  all_goals split at h <;> simp_all

theorem form_atom {depth : Nat} {p : Parser} {t : Token} {us : List Token} {node : Node}
    (hrow : p.tokens.1 = t :: us) (hus : us ≠ []) (h : Spells [t] [node]) :
    ∃ q lt, form (depth + 1) p = .done node q lt ∧ q.tokens = (us, p.tokens.2) := by
  have hatom : atom p.current = .ok node := by rw [current_eq hrow, atom_of_spells h]
  unfold form
  split
  case h_1 hkind | h_2 hkind | h_3 hkind | h_4 hkind => simp [atom, hkind] at hatom
  all_goals
    rename_i hkind
    obtain ⟨q, lt, heq, hq⟩ := take_of_tokens hrow hus (by simp [hkind])
    refine ⟨q, lt, ?_, hq⟩
    rw [heq]
    simp only [hatom]

/-- A list in parentheses is read where its items are. -/
theorem form_parens {depth : Nat} {items : List Node}
    (hitems : ∀ item ∈ items, Reads (form depth) item) :
    Reads (form (depth + 1)) (.expr items) := by
  intro p ts us hrow hus h
  obtain ⟨q, lt, heq, hq⟩ := list_reads hitems hrow hus h
  obtain ⟨o, inner, c, rfl, ho, _⟩ := spells_expr_iff.mp h
  have hkind : p.current.kind = .openParen := by rw [current_eq hrow, ho]
  refine ⟨q, lt, ?_, hq⟩
  unfold form
  split
  case h_1 =>
    rw [heq]
    rfl
  all_goals
    rename_i hother
    rw [hkind] at hother
    cases hother

/-- A quoted node is read where the node behind the quote is. -/
theorem form_quoted {depth : Nat} {p : Parser} {ts us : List Token} {quoted : Node}
    (node : Node) (hterminals : quoted.terminals = .quote :: node.terminals)
    (hquote : ∀ span, quote span node = .ok quoted) (hnode : Reads (form depth) node)
    (hrow : p.tokens.1 = ts ++ us) (hus : us ≠ []) (h : Spells ts [quoted]) :
    ∃ q lt, form (depth + 1) p = .done quoted q lt ∧ q.tokens = (us, p.tokens.2) := by
  obtain ⟨q, vs, rfl, hq, hvs⟩ := (spells_quoted_iff node hterminals).mp h
  have hkind : p.current.kind = .quote := by rw [current_eq hrow, hq]
  rw [List.cons_append] at hrow
  obtain ⟨r, lt, heq, hr⟩ := take_of_tokens hrow (by simp [hus]) (by simp [hkind])
  obtain ⟨s, lt', heq', hs⟩ := hnode r vs us (by rw [hr]) hus hvs
  refine ⟨s, by omega, ?_, by rw [hs, hr]⟩
  unfold form
  split
  case h_4 =>
    rw [heq]
    simp only [heq', hquote]
  all_goals
    rename_i hother
    rw [hkind] at hother
    cases hother

mutual

/-- Tokens that spell a node are read as that node, if the depth that is left is twice the
node's: a list that is quoted takes one level for the quote and one for the list. -/
theorem form_reads :
    ∀ (node : Node) (depth : Nat), 2 * node.depth + 2 ≤ depth → Reads (form depth) node
  | .int _, depth + 1, _ | .float _, depth + 1, _ | .name _, depth + 1, _
  | .str _, depth + 1, _ | .operator _, depth + 1, _ | .foreign _, depth + 1, _ => by
    intro p ts us hrow hus h
    obtain ⟨t, rfl, _⟩ := List.map_eq_singleton_iff.mp (spells_singleton_iff.mp h)
    exact form_atom hrow hus h
  | .symbol x, depth + 2, _ => by
    intro p ts us hrow hus h
    refine form_quoted (.name x) rfl (fun _ => rfl) ?_ hrow hus h
    intro q vs ws hrow' hws hvs
    obtain ⟨t, rfl, _⟩ := List.map_eq_singleton_iff.mp (spells_singleton_iff.mp hvs)
    exact form_atom hrow' hws hvs
  | .expr items, depth + 1, hd => by
    intro p ts us hrow hus h
    exact form_parens (form_reads_each items depth (by simp only [Node.depth] at hd; omega))
      p ts us hrow hus h
  | .list items, depth + 2, hd => by
    intro p ts us hrow hus h
    refine form_quoted (.expr items) rfl (fun _ => rfl) ?_ hrow hus h
    exact form_parens (form_reads_each items depth (by simp only [Node.depth] at hd; omega))

theorem form_reads_each : ∀ (nodes : List Node) (depth : Nat),
    2 * Node.depthEach nodes + 2 ≤ depth → ∀ node ∈ nodes, Reads (form depth) node
  | [], _, _ => by
    intro node h
    cases h
  | node :: nodes, depth, hd => by
    intro n hn
    simp only [Node.depthEach] at hd
    rcases List.mem_cons.mp hn with heq | hn
    · rw [heq]
      exact form_reads node depth (by omega)
    · exact form_reads_each nodes depth (by omega) n hn

end

theorem start_ok {c : Cursor} {p : Parser} (h : start c = .ok p) : p.tokens = c.tokens := by
  unfold start at h
  split at h
  · rename_i t d hnext
    cases h
    exact (tokens_of_next hnext).symm
  · cases h

theorem start_error {c : Cursor} {e : SyntaxError} (h : start c = .error e) :
    c.tokens = ([], some e) := by
  unfold start at h
  split at h
  · cases h
  · rename_i d hnext
    cases h
    exact (Cursor.Cuts.error hnext).tokens_eq

end Parser

/-! ## Whole texts -/

/-- The text is cut into these tokens and the end. -/
def CutsInto (cs : List Char) (ts : List Token) : Prop :=
  (Cursor.ofText cs).tokens = (ts ++ [Token.atEnd cs.length], none)

theorem CutsInto.tiling {cs : List Char} {ts : List Token} (h : CutsInto cs ts) :
    Tiling cs 0 ts cs.length := by
  rcases Cursor.tokens_tiling cs with ⟨_, front, hfront, htiling⟩ | ⟨_, _, _, hsome, _⟩
  · rw [h] at hfront
    rwa [(List.append_inj' hfront rfl).1]
  · rw [h] at hsome
    cases hsome

/-- What a whole text is read as if lists may be nested in `levels` levels. -/
def readLevels (levels : Nat) (cs : List Char) : Except ReadFailure (List Node) :=
  match Parser.start (.ofText cs) with
  | .error e => .error (.malformed e)
  | .ok p => (p.toEnd levels).result

section Levels

variable {levels : Nat} {cs : List Char}

theorem readLevels_of_start_error {e : SyntaxError} (h : Parser.start (.ofText cs) = .error e) :
    readLevels levels cs = .error (.malformed e) := by
  rw [readLevels, h]

theorem readLevels_of_start_ok {p : Parser} (h : Parser.start (.ofText cs) = .ok p) :
    readLevels levels cs = (p.toEnd levels).result := by
  rw [readLevels, h]

/-- What a text is read as, its tokens spell. -/
theorem spells_of_readLevels {nodes : List Node} (h : readLevels levels cs = .ok nodes) :
    ∃ ts, CutsInto cs ts ∧ Spells ts nodes := by
  unfold readLevels at h
  split at h
  · cases h
  · rename_i p hstart
    have hends := Parser.forms_ends (fun _ => false) (Parser.form_ends levels) p
    simp only [Parser.toEnd] at h
    cases heq : Parser.forms (fun _ => false) (Parser.form levels) p with
    | failed f q =>
      rw [heq] at h
      cases h
    | done ns q lt =>
      rw [heq] at h hends
      cases h
      obtain ⟨⟨ts, hts, hspells⟩, hend⟩ := hends
      have heof : q.current.kind = .eof := by simpa using hend
      have hrow : (Cursor.ofText cs).tokens = (ts ++ [q.current], none) := by
        rw [← Parser.start_ok hstart, hts, Parser.tokens, if_pos heof]
      refine ⟨ts, ?_, hspells⟩
      -- a row that ends without an error ends at the end of the text
      rcases Cursor.tokens_tiling cs with ⟨_, front, hfront, _⟩ | ⟨_, _, _, hsome, _⟩
      · rw [hrow] at hfront
        rw [CutsInto, hrow, (List.append_inj' hfront rfl).2]
      · rw [hrow] at hsome
        cases hsome

/-- A text that is cut into tokens is read from the first of these. -/
theorem exists_start {ts : List Token} (hcuts : CutsInto cs ts) :
    ∃ p, Parser.start (.ofText cs) = .ok p ∧ p.tokens.1 = ts ++ [Token.atEnd cs.length] := by
  cases hstart : Parser.start (.ofText cs) with
  | error e =>
    have hnone := congrArg Prod.snd (Parser.start_error hstart)
    rw [hcuts] at hnone
    cases hnone
  | ok p => exact ⟨p, rfl, by rw [Parser.start_ok hstart, hcuts]⟩

/-- A text whose tokens spell nodes is read as these if each of them is. -/
theorem readLevels_of_reads {ts : List Token} {nodes : List Node} (hcuts : CutsInto cs ts)
    (h : Spells ts nodes) (hreads : ∀ node ∈ nodes, Parser.Reads (Parser.form levels) node) :
    readLevels levels cs = .ok nodes := by
  obtain ⟨p, hstart, hrow⟩ := exists_start hcuts
  obtain ⟨q, lt, heq, _⟩ := Parser.forms_reads (fun _ => false) (by simp) hreads hrow h (.inl rfl)
  rw [readLevels_of_start_ok hstart, Parser.toEnd, heq]
  rfl

/-- Twice as many levels as the nodes have are enough for that. -/
theorem readLevels_of_spells {ts : List Token} {nodes : List Node} (hcuts : CutsInto cs ts)
    (h : Spells ts nodes) (hdepth : 2 * Node.depthEach nodes + 2 ≤ levels) :
    readLevels levels cs = .ok nodes :=
  readLevels_of_reads hcuts h (Parser.form_reads_each nodes levels hdepth)

/-- Why a text is not read: it is malformed, it is nested too deeply, or it has an integer with
more digits than are read. -/
theorem readLevels_error_cases {f : ReadFailure} (h : readLevels levels cs = .error f) :
    (∃ e, f = .malformed e) ∨ f = .fault .nestedTooDeeply ∨
      (∃ n, f = .fault (.literalTooLong n)) ∧ ∃ t ∈ (Cursor.ofText cs).tokens.1, t.kind = .int ∧
        Decimal.digitLimit < (Decimal.unsigned t.content).length := by
  unfold readLevels at h
  split at h
  · cases h
    exact .inl ⟨_, rfl⟩
  · rename_i p hstart
    have hends := Parser.forms_ends (fun _ => false) (Parser.form_ends levels) p
    simp only [Parser.toEnd] at h
    cases heq : Parser.forms (fun _ => false) (Parser.form levels) p with
    | done ns q lt =>
      rw [heq] at h
      cases h
    | failed f' q =>
      rw [heq] at h hends
      cases h
      rw [← Parser.start_ok hstart]
      cases f with
      | malformed e => exact .inl ⟨e, rfl⟩
      | fault ft =>
        cases ft with
        | nestedTooDeeply => exact .inr (.inl rfl)
        | literalTooLong n => exact .inr (.inr ⟨⟨n, rfl⟩, hends⟩)
        | _ => exact hends.elim

end Levels

/-- The row of tokens that a text is cut into is known from cutting it. -/
theorem readLexed_eq_some_iff {cs : List Char} {nodes : List Node} :
    readLexed cs = some nodes ↔ ∃ ts, CutsInto cs ts ∧ Spells ts nodes := by
  unfold readLexed CutsInto
  rcases Cursor.tokens_tiling cs with ⟨hnone, front, hfront, _⟩ | ⟨p, c, tail, hsome, _⟩
  · have hrow : (Cursor.ofText cs).tokens = (front ++ [Token.atEnd cs.length], none) :=
      Prod.ext hfront hnone
    simp only [hrow, List.dropLast_concat, ← spells_iff, Prod.mk.injEq, and_true,
      List.append_cancel_right_eq]
    constructor
    · intro h
      exact ⟨front, rfl, h⟩
    · rintro ⟨ts, rfl, h⟩
      exact h
  · have hrow : (Cursor.ofText cs).tokens = ((Cursor.ofText cs).tokens.1, some _) :=
      Prod.ext rfl hsome
    rw [hrow]
    simp

section Parse

variable [Host]

/-- A whole text is read with the levels that the host has for it, and to be without them is an
error of the text. -/
theorem parse_eq_readLevels (cs : List Char) :
    parse cs = (readLevels (Host.levels cs) cs).mapError ReadFailure.ofText := by
  unfold parse read readLevels
  cases Parser.start (.ofText cs) <;> rfl

theorem parse_eq_ok_iff {cs : List Char} {nodes : List Node} :
    parse cs = .ok nodes ↔ readLevels (Host.levels cs) cs = .ok nodes := by
  rw [parse_eq_readLevels]
  cases readLevels (Host.levels cs) cs <;> simp [Except.mapError]

/-- What a text is read as, its tokens spell. -/
theorem spells_of_parse {cs : List Char} {nodes : List Node} (h : parse cs = .ok nodes) :
    ∃ ts, CutsInto cs ts ∧ Spells ts nodes :=
  spells_of_readLevels (parse_eq_ok_iff.mp h)

/-- A text whose tokens spell nodes of no great depth is read as these. -/
theorem parse_of_spells {cs : List Char} {ts : List Token} {nodes : List Node}
    (hcuts : CutsInto cs ts) (h : Spells ts nodes) (hdepth : Node.depthEach nodes ≤ 100) :
    parse cs = .ok nodes := by
  have hlevels := Host.hundred_levels cs
  exact parse_eq_ok_iff.mpr (readLevels_of_spells hcuts h (by omega))

/-- Why a text is not read: it is malformed, or has an integer with more digits than are read. -/
theorem parse_error_cases {cs : List Char} {f : ReadFailure} (h : parse cs = .error f) :
    (∃ e, f = .malformed e) ∨ (∃ n, f = .fault (.literalTooLong n)) ∧
      ∃ t ∈ (Cursor.ofText cs).tokens.1, t.kind = .int ∧
        Decimal.digitLimit < (Decimal.unsigned t.content).length := by
  rw [parse_eq_readLevels] at h
  cases hread : readLevels (Host.levels cs) cs with
  | ok nodes =>
    rw [hread] at h
    cases h
  | error g =>
    rw [hread] at h
    cases h
    rcases readLevels_error_cases hread with ⟨e, rfl⟩ | rfl | ⟨⟨n, rfl⟩, hlong⟩
    · exact .inl ⟨e, rfl⟩
    · exact .inl ⟨_, rfl⟩
    · exact .inr ⟨⟨n, rfl⟩, hlong⟩

/-- A text that is not read is at fault, or has a number that is too long. -/
theorem blames_of_parse {cs : List Char} {f : ReadFailure} (h : parse cs = .error f) :
    (∃ e, f = .malformed e) ∨ ∃ t ∈ (Cursor.ofText cs).tokens.1, t.kind = .int ∧
      Decimal.digitLimit < (Decimal.unsigned t.content).length :=
  (parse_error_cases h).imp_right And.right

/-- Reading follows the grammar, with the only tree there is. A text that is nested at most a
hundred levels deep and has no number that is too long is read as `nodes` just when it can be
cut whole and its tokens spell `nodes`; whatever cannot be read so is a syntax error. Cutting
a token only when it is needed thus gives what cutting the whole text first gives. -/
theorem parse_eq_ok_iff_spells (cs : List Char)
    (hnumbers : ∀ t ∈ (Cursor.ofText cs).tokens.1, t.kind = .int →
      (Decimal.unsigned t.content).length ≤ Decimal.digitLimit)
    (hnested : nesting 0 (Cursor.ofText cs).tokens.1 ≤ 100) :
    (∀ nodes, parse cs = .ok nodes ↔ ∃ ts, CutsInto cs ts ∧ Spells ts nodes) ∧
    (∀ ts as bs, Spells ts as → Spells ts bs → as = bs) ∧
    ((∀ nodes, parse cs ≠ .ok nodes) → ∃ e, parse cs = .error (.malformed e)) ∧
    (parse cs).toOption = readLexed cs := by
  have hiff : ∀ nodes, parse cs = .ok nodes ↔ ∃ ts, CutsInto cs ts ∧ Spells ts nodes := by
    intro nodes
    constructor
    · exact spells_of_parse
    · rintro ⟨ts, hcuts, h⟩
      have hdepth := h.depthEach_le [Token.atEnd cs.length]
      rw [hcuts] at hnested
      refine parse_of_spells hcuts h ?_
      simp only at hnested
      omega
  refine ⟨hiff, fun ts as bs ha hb => ha.unique hb, ?_, ?_⟩
  · intro hno
    cases hparse : parse cs with
    | ok nodes => exact absurd hparse (hno nodes)
    | error f =>
      rcases blames_of_parse hparse with ⟨e, rfl⟩ | ⟨t, ht, hkind, hlong⟩
      · exact ⟨e, rfl⟩
      · exact absurd (hnumbers t ht hkind) (Nat.not_le.mpr hlong)
  · ext nodes
    rw [readLexed_eq_some_iff, ← hiff]
    cases parse cs <;> simp [Except.toOption]

end Parse

/-- A quoted list with a number right behind another, and a string with a parenthesis in it. -/
theorem parse_eq_ok_iff_spells_quoted :
    ∃ cs, cs = "(f '(1-2.) \")\" 'x)+".toList ∧
      (∀ t ∈ (Cursor.ofText cs).tokens.1, t.kind = .int →
        (Decimal.unsigned t.content).length ≤ Decimal.digitLimit) ∧
      nesting 0 (Cursor.ofText cs).tokens.1 = 2 ∧ (readLexed cs).isSome = true ∧
      (∀ nodes, parse cs = .ok nodes ↔ ∃ ts, CutsInto cs ts ∧ Spells ts nodes) ∧
      (parse cs).toOption = readLexed cs := by
  refine ⟨_, rfl, ?_⟩
  have hnumbers : ∀ t ∈ (Cursor.ofText "(f '(1-2.) \")\" 'x)+".toList).tokens.1, t.kind = .int →
      (Decimal.unsigned t.content).length ≤ Decimal.digitLimit := by decide +kernel
  have hnested : nesting 0 (Cursor.ofText "(f '(1-2.) \")\" 'x)+".toList).tokens.1 = 2 := by
    decide +kernel
  obtain ⟨hiff, _, _, hlexed⟩ := parse_eq_ok_iff_spells _ hnumbers (by rw [hnested]; decide)
  exact ⟨hnumbers, hnested, by decide +kernel, hiff, hlexed⟩

end MiniLisp
