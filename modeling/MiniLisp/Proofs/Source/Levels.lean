import MiniLisp.Proofs.Source.Advance
import MiniLisp.Proofs.Source.Written

/-!
# Reading with more levels

With more levels a text is read as before, unless it was without them that reading came to its end
(`readLevels_of_le`). So it does not matter how many levels the host has for a text, as long as the
text `Fits`: then it is read as with any number of levels above (`Fits.parse_eq`). A text fits if it
needs no more levels than the host has for every text (`ReadsWithin.fits`). Lists inside one another
need as many levels as there are lists, and no more (`readsWithin_parens_iff`).
-/

namespace MiniLisp

namespace Parser

/-- The step has come to nothing because there are no levels left. -/
def Step.Deep {α : Type} {bound : Nat} (s : Step α bound) : Prop :=
  s.result = .error (.fault .nestedTooDeeply)

theorem Step.Deep.exists_failed {α : Type} {bound : Nat} {s : Step α bound} (h : s.Deep) :
    ∃ q, s = .failed (.fault .nestedTooDeeply) q := by
  cases s with
  | done _ _ _ => cases h
  | failed failure q =>
    cases h
    exact ⟨q, rfl⟩

section More

variable {p : Parser} {f g : (p : Parser) → Step Node p.size} {stops : TokenKind → Bool}

/-- A loop over forms is as it was if its forms are, where these are not deep. -/
theorem forms_more (p : Parser) (h : ∀ r, ¬ (f r).Deep → g r = f r)
    (hdeep : ¬ (forms stops f p).Deep) : forms stops g p = forms stops f p := by
  rw [forms] at hdeep ⊢
  rw [forms]
  split
  · rfl
  · rename_i hgo
    rw [if_neg hgo] at hdeep
    have hhead : ¬ (f p).Deep := by
      intro hform
      obtain ⟨q, hq⟩ := hform.exists_failed
      exact hdeep (by rw [hq]; rfl)
    rw [h p hhead]
    cases hform : f p with
    | failed failure q => rfl
    | done node q lt =>
      rw [hform] at hdeep
      have htail : ¬ (forms stops f q).Deep := by
        intro hforms
        obtain ⟨r, hr⟩ := hforms.exists_failed
        exact hdeep (by simp only [hr]; rfl)
      simp only [forms_more q h htail]
termination_by p.size

theorem list_more (h : ∀ r, ¬ (f r).Deep → g r = f r) (hdeep : ¬ (list f p).Deep) :
    list g p = list f p := by
  unfold list at hdeep ⊢
  split
  · rename_i hopen
    rw [dif_pos hopen] at hdeep
    cases htake : p.take (by simp [hopen]) with
    | failed failure q => rfl
    | done _ q lt =>
      rw [htake] at hdeep
      have hforms : ¬ (forms (· == .closeParen) f q).Deep := by
        intro hforms
        obtain ⟨r, hr⟩ := hforms.exists_failed
        exact hdeep (by simp only [hr]; rfl)
      simp only [forms_more q h hforms]
  · rfl

end More

/-- A form that is not deep is read as before with one level more. -/
theorem form_succ (depth : Nat) :
    ∀ p, ¬ (form depth p).Deep → form (depth + 1) p = form depth p := by
  induction depth with
  | zero => exact fun p hdeep => absurd rfl hdeep
  | succ depth ih =>
    intro p hdeep
    -- only lists and quotes go a level down, so only these need the induction
    by_cases hopen : p.current.kind = .openParen
    · rw [form_openParen hopen] at hdeep ⊢
      have hlist : ¬ (list (form depth) p).Deep := by
        intro hlist
        obtain ⟨q, hq⟩ := hlist.exists_failed
        exact hdeep (by rw [hq]; rfl)
      rw [form_openParen hopen, list_more ih hlist]
    by_cases hnone : p.current.kind = .closeParen ∨ p.current.kind = .eof
    · rw [form_none hnone, form_none hnone]
    obtain ⟨hclose, heof⟩ := not_or.mp hnone
    by_cases hquote : p.current.kind = .quote
    · rw [form_quote hquote heof] at hdeep ⊢
      rw [form_quote hquote heof]
      cases htake : p.take heof with
      | failed failure q => rfl
      | done _ q lt =>
        rw [htake] at hdeep
        have hform : ¬ (form depth q).Deep := by
          intro hform
          obtain ⟨r, hr⟩ := hform.exists_failed
          exact hdeep (by simp only [hr]; rfl)
        simp only [ih q hform]
    · rw [form_literal hopen hclose hquote heof, form_literal hopen hclose hquote heof]

/-- So it is with any number of levels more. -/
theorem form_of_le {depth depth' : Nat} (hle : depth ≤ depth') (p : Parser)
    (hdeep : ¬ (form depth p).Deep) : form depth' p = form depth p := by
  induction hle with
  | refl => rfl
  | step _ ih => rw [form_succ _ p (ih.symm ▸ hdeep), ih]

theorem forms_of_le {depth depth' : Nat} (hle : depth ≤ depth') (stops : TokenKind → Bool)
    (p : Parser) (hdeep : ¬ (forms stops (form depth) p).Deep) :
    forms stops (form depth') p = forms stops (form depth) p :=
  forms_more p (form_of_le hle) hdeep

/-- With more levels than there is left to read, they are never used up. -/
theorem forms_not_deep {p : Parser} {depth : Nat} (stops : TokenKind → Bool) (h : p.size < depth) :
    ¬ (forms stops (form depth) p).Deep := by
  have hstable : Stable (fun _ => True) (· ≠ .fault .nestedTooDeeply) :=
    ⟨fun _ h => h, fun _ h => (nomatch h), fun _ h => (nomatch h)⟩
  have hforms : (forms stops (form depth) p).Keeps (fun _ => True) (· ≠ .fault .nestedTooDeeply) :=
    hstable.keeps_forms stops p
      (fun r hr _ => hstable.keeps_form depth r trivial (.inr (by omega))) trivial
  intro hresult
  exact hforms.failure hresult rfl

/-- A loop over forms is deep if its first form is, which begins with a parenthesis here. -/
theorem forms_deep {p : Parser} {f : (p : Parser) → Step Node p.size} {stops : TokenKind → Bool}
    (hopen : p.current.kind = .openParen) (hstops : stops .openParen = false) (h : (f p).Deep) :
    (forms stops f p).Deep := by
  obtain ⟨q, hq⟩ := h.exists_failed
  rw [forms, if_neg (by simp [hopen, hstops]), hq]
  rfl

/-- The levels are used up where more parentheses than levels are opened. -/
theorem form_deep (depth : Nat) : ∀ (p : Parser) {ts us : List Token}, p.tokens.1 = ts ++ us →
    us ≠ [] → depth < ts.length → (∀ t ∈ ts, t.kind = .openParen) → (form depth p).Deep := by
  induction depth with
  | zero => exact fun _ _ _ _ _ _ _ => rfl
  | succ depth ih =>
    intro p ts us hrow hus hlength hopen
    -- one parenthesis begins the form, and there is one more at least to begin the next
    obtain ⟨t, t', ts, rfl⟩ : ∃ t t' ts', ts = t :: t' :: ts' := by
      match ts, hlength with
      | t :: t' :: ts, _ => exact ⟨t, t', ts, rfl⟩
    have hkind : p.current.kind = .openParen := by
      rw [current_eq hrow, hopen t List.mem_cons_self]
    obtain ⟨q, lt, htake, hq⟩ := take_of_tokens (p := p) hrow (by simp) (by simp [hkind])
    have hrow' : q.tokens.1 = (t' :: ts) ++ us := by rw [hq]; rfl
    have hnext : q.current.kind = .openParen := by
      rw [current_eq hrow', hopen t' (by simp)]
    have hform : (form depth q).Deep := ih q hrow' hus (Nat.lt_of_succ_lt_succ hlength)
      fun u hu => hopen u (List.mem_cons_of_mem t hu)
    have hforms : (forms (· == .closeParen) (form depth) q).Deep := forms_deep hnext rfl hform
    obtain ⟨r, hr⟩ := hforms.exists_failed
    rw [form_openParen hkind, list, dif_pos hkind, htake]
    simp only [hr]
    rfl

end Parser

/-! ## Whole texts -/

/-- The text needs no more than so many levels. -/
def ReadsWithin (levels : Nat) (cs : List Char) : Prop :=
  readLevels levels cs ≠ .error (.fault .nestedTooDeeply)

section Levels

variable {levels levels' : Nat} {cs : List Char}

/-- Levels that a text does not need make no difference. -/
theorem readLevels_of_le (h : ReadsWithin levels cs) (hle : levels ≤ levels') :
    readLevels levels' cs = readLevels levels cs := by
  unfold ReadsWithin at h
  cases hstart : Parser.start (.ofText cs) with
  | error e => rw [readLevels_of_start_error hstart, readLevels_of_start_error hstart]
  | ok p =>
    rw [readLevels_of_start_ok hstart] at h
    rw [readLevels_of_start_ok hstart, readLevels_of_start_ok hstart]
    exact congrArg Parser.Step.result (Parser.forms_of_le hle (fun _ => false) p h)

theorem ReadsWithin.mono (h : ReadsWithin levels cs) (hle : levels ≤ levels') :
    ReadsWithin levels' cs := by
  rwa [ReadsWithin, readLevels_of_le h hle]

/-- A text has no more levels than characters. -/
theorem readsWithin_of_length_lt (h : cs.length < levels) : ReadsWithin levels cs := by
  unfold ReadsWithin
  cases hstart : Parser.start (.ofText cs) with
  | error e =>
    rw [readLevels_of_start_error hstart]
    exact nofun
  | ok p =>
    rw [readLevels_of_start_ok hstart]
    have hsize := (Parser.Reached.start hstart).placed.size_le
    exact Parser.forms_not_deep (fun _ => false) (Nat.lt_of_le_of_lt hsize h)

/-- A text that begins with more opening parentheses than there are levels needs more of them. -/
theorem not_readsWithin {os ts : List Token} (hcuts : CutsInto cs (os ++ ts))
    (hopen : ∀ o ∈ os, o.kind = .openParen) (hlength : levels < os.length) :
    ¬ ReadsWithin levels cs := by
  obtain ⟨p, hstart, hrow⟩ := exists_start hcuts
  rw [List.append_assoc] at hrow
  have hform := Parser.form_deep levels p hrow (by simp) hlength hopen
  have hkind : p.current.kind = .openParen := by
    obtain ⟨o, os, rfl⟩ := List.exists_cons_of_length_pos (Nat.zero_lt_of_lt hlength)
    rw [Parser.current_eq hrow, hopen o List.mem_cons_self]
  intro h
  rw [ReadsWithin, readLevels_of_start_ok hstart] at h
  exact h (Parser.forms_deep hkind rfl hform)

end Levels

/-! ## Lists inside one another -/

/-- An empty list with `n` lists around it. -/
def Node.nested : Nat → Node
  | 0 => .expr []
  | n + 1 => .expr [nested n]

/-- So many lists inside one another, written without blanks. -/
def parens (n : Nat) : List Char := List.replicate n '(' ++ List.replicate n ')'

section Nested

variable {levels : Nat}

theorem around_replicate {α : Type} (a b : α) (n : Nat) :
    a :: (List.replicate n a ++ List.replicate n b ++ [b]) =
      List.replicate (n + 1) a ++ List.replicate (n + 1) b := by
  rw [List.append_assoc, ← List.replicate_succ', ← List.cons_append, ← List.replicate_succ]

theorem Node.terminals_nested (n : Nat) : (nested n).terminals =
    List.replicate (n + 1) .openParen ++ List.replicate (n + 1) .closeParen := by
  induction n with
  | zero => rfl
  | succ n ih =>
    rw [nested, terminals, terminalsEach_singleton, ih]
    exact around_replicate _ _ _

theorem lexes_parens (n : Nat) : Lexes (parens (n + 1)) (Node.nested n).terminals := by
  rw [Node.terminals_nested]
  induction n with
  | zero => exact lexes_nil.parens
  | succ n ih =>
    have hlexes := ih.parens
    rw [parens, around_replicate, around_replicate] at hlexes
    exact hlexes

theorem reads_nested (n : Nat) : Parser.Reads (Parser.form (n + 1)) (.nested n) := by
  induction n with
  | zero => exact Parser.form_parens (List.forall_mem_nil _)
  | succ n ih => exact Parser.form_parens (List.forall_mem_singleton.mpr ih)

/-- As many levels are enough for lists inside one another as there are lists. -/
theorem readLevels_parens (n : Nat) :
    readLevels (n + 1) (parens (n + 1)) = .ok [Node.nested n] := by
  obtain ⟨ts, hspells, hcuts⟩ := (lexes_parens n).cutsInto
  exact readLevels_of_reads hcuts (spells_singleton_iff.mpr hspells)
    (List.forall_mem_singleton.mpr (reads_nested n))

/-- They need just as many. -/
theorem readsWithin_parens_iff {n : Nat} : ReadsWithin levels (parens (n + 1)) ↔ n < levels := by
  constructor
  · intro h
    obtain ⟨ts, hspells, hcuts⟩ := (lexes_parens n).cutsInto
    -- the tokens begin with one opening parenthesis for each list
    rw [Node.terminals_nested, List.map_append, List.map_replicate] at hspells
    obtain ⟨os, us, rfl, hos, _⟩ := List.map_eq_append_iff.mp hspells
    have hopen : ∀ o ∈ os, o.kind = .openParen := by
      intro o ho
      have hmem := List.mem_map_of_mem (f := Token.terminal?) ho
      rw [hos] at hmem
      exact Token.terminal?_openParen_iff.mp (List.eq_of_mem_replicate hmem)
    have hlength : os.length = n + 1 := by
      rw [← List.length_map, hos, List.length_replicate]
    by_contra hlt
    exact not_readsWithin hcuts hopen (by omega) h
  · intro hle
    have hreads : ReadsWithin (n + 1) (parens (n + 1)) := by
      rw [ReadsWithin, readLevels_parens]
      exact nofun
    exact hreads.mono hle

end Nested

/-! ## What the host reads -/

section Fits

variable [Host] {cs : List Char}

/-- The host's stack holds the text while it is read. -/
def Fits (cs : List Char) : Prop := ReadsWithin (Host.levels cs) cs

/-- A text that does not fit is reported as nested too deeply. -/
theorem parse_of_not_fits (h : ¬ Fits cs) :
    parse cs = .error (.malformed ⟨.nestedTooDeeply, none⟩) := by
  rw [parse_eq_readLevels, not_not.mp h]
  rfl

/-- A text fits that is nested no deeper than a hundred levels, with a quote at each of them. -/
theorem ReadsWithin.fits (h : ReadsWithin 202 cs) : Fits cs :=
  h.mono (Host.hundred_levels cs)

theorem fits_of_parse {nodes : List Node} (h : parse cs = .ok nodes) : Fits cs := by
  rw [Fits, ReadsWithin, parse_eq_ok_iff.mp h]
  exact nofun

/-- What the host reads is read with any number of levels above the host's. -/
theorem readLevels_of_parse {nodes : List Node} (h : parse cs = .ok nodes) {levels : Nat}
    (hle : Host.levels cs ≤ levels) : readLevels levels cs = .ok nodes :=
  (readLevels_of_le (fits_of_parse h) hle).trans (parse_eq_ok_iff.mp h)

/-- A text that fits is read as with any number of levels above the host's. -/
theorem Fits.parse_eq (h : Fits cs) {levels : Nat} (hle : Host.levels cs ≤ levels) :
    parse cs = (readLevels levels cs).mapError ReadFailure.ofText := by
  rw [parse_eq_readLevels, readLevels_of_le h hle]

end Fits

end MiniLisp
