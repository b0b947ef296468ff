import Mathlib.Data.List.TakeWhile
import MiniLisp.Source.Cursor

/-!
# The token grammar

The token grammar as a relation between kinds and texts, apart from how lexemes are cut.
`Lexeme.first?_eq_some_iff` says that the lexeme at the head of a text is its longest prefix
in the grammar, and `Lexeme.first?_eq_none_iff` that there is none only where no prefix is.

A lexeme ends where the text behind it `Breaks`: `Lexeme.first?_append` is what the modules on
layout and on written forms take from here.
-/

namespace MiniLisp

/-! ## Runs of characters -/

/-- A text whose first character, if it has one, fails `p`. -/
def Halts (p : Char → Bool) (cs : List Char) : Prop := ∀ c ∈ cs.head?, p c = false

theorem halts_nil (p : Char → Bool) : Halts p [] := by
  intro c h
  cases h

theorem halts_cons {p : Char → Bool} {c : Char} (h : p c = false) (cs : List Char) :
    Halts p (c :: cs) := by
  intro d hd
  obtain rfl : c = d := by simpa using hd
  exact h

theorem halts_dropWhile (p : Char → Bool) (cs : List Char) : Halts p (cs.dropWhile p) := by
  intro c h
  have hnot := List.head?_dropWhile_not p cs
  rw [Option.mem_def.mp h] at hnot
  simpa using hnot

theorem Halts.of_prefix {p : Char → Bool} {as cs : List Char} (h : Halts p cs) (has : as <+: cs) :
    Halts p as := by
  obtain ⟨rest, rfl⟩ := has
  cases as with
  | nil => exact halts_nil p
  | cons c as => exact halts_cons (h c rfl) as

theorem takeWhile_append_halts {p : Char → Bool} {run rest : List Char}
    (hrun : ∀ c ∈ run, p c = true) (hrest : Halts p rest) : (run ++ rest).takeWhile p = run := by
  rw [List.takeWhile_append_of_pos hrun]
  cases rest with
  | nil => simp
  | cons c cs => simp [hrest c rfl]

theorem dropWhile_append_halts {p : Char → Bool} {run rest : List Char}
    (hrun : ∀ c ∈ run, p c = true) (hrest : Halts p rest) : (run ++ rest).dropWhile p = rest := by
  rw [List.dropWhile_append_of_pos hrun]
  cases rest with
  | nil => rfl
  | cons c cs => simp [hrest c rfl]

/-- A run is cut from what is behind it in one way only. -/
theorem append_inj_of_halts {p : Char → Bool} {run run' rest rest' : List Char}
    (hrun : ∀ c ∈ run, p c = true) (hrun' : ∀ c ∈ run', p c = true) (hrest : Halts p rest)
    (hrest' : Halts p rest') (h : run ++ rest = run' ++ rest') : run = run' ∧ rest = rest' := by
  constructor
  · rw [← takeWhile_append_halts hrun hrest, h, takeWhile_append_halts hrun' hrest']
  · rw [← dropWhile_append_halts hrun hrest, h, dropWhile_append_halts hrun' hrest']

theorem takeWhile_append_of_halts {p : Char → Bool} {rest : List Char} (h : Halts p rest)
    (cs : List Char) : (cs ++ rest).takeWhile p = cs.takeWhile p := by
  induction cs with
  | nil =>
    have hnone := takeWhile_append_halts (p := p) (List.forall_mem_nil _) h
    simpa using hnone
  | cons c cs ih => simp only [List.cons_append, List.takeWhile_cons, ih]

theorem dropWhile_append_of_halts {p : Char → Bool} {rest : List Char} (h : Halts p rest)
    (cs : List Char) : (cs ++ rest).dropWhile p = cs.dropWhile p ++ rest := by
  induction cs with
  | nil =>
    have hnone := dropWhile_append_halts (p := p) (List.forall_mem_nil _) h
    simpa using hnone
  | cons c cs ih =>
    simp only [List.cons_append, List.dropWhile_cons, ih]
    split <;> rfl

/-- A run at the head of a text is no longer than the longest one. -/
theorem length_run_le {p : Char → Bool} {run cs : List Char} (hrun : ∀ c ∈ run, p c = true)
    (h : run <+: cs) : run.length ≤ (cs.takeWhile p).length := by
  obtain ⟨rest, rfl⟩ := h
  rw [List.takeWhile_append_of_pos hrun, List.length_append]
  omega

/-! ## The token grammar -/

namespace Lexeme

/-- The unsigned numbers: digits, and for a float a point with or without digits behind it. -/
inductive Unsigned : TokenKind → List Char → Prop where
  | int {ds : List Char} (hne : ds ≠ []) (hds : ∀ c ∈ ds, c.isDigit = true) : Unsigned .int ds
  | float {ds fs : List Char} (hne : ds ≠ []) (hds : ∀ c ∈ ds, c.isDigit = true)
      (hfs : ∀ c ∈ fs, c.isDigit = true) : Unsigned .float (ds ++ '.' :: fs)

/-- The texts that are one token of a kind. -/
inductive Fits : TokenKind → List Char → Prop where
  | name {c : Char} {cs : List Char} (hc : c.isAlpha = true ∨ c = '_')
      (hcs : ∀ d ∈ cs, d.isAlphanum = true ∨ d = '_') : Fits .name (c :: cs)
  | unsigned {kind : TokenKind} {cs : List Char} (h : Unsigned kind cs) : Fits kind cs
  | signed {kind : TokenKind} {c : Char} {cs : List Char} (hc : c = '+' ∨ c = '-')
      (h : Unsigned kind cs) : Fits kind (c :: cs)
  | string {cs : List Char} (h : '"' ∉ cs) : Fits .string ('"' :: cs ++ ['"'])
  | openParen : Fits .openParen ['(']
  | closeParen : Fits .closeParen [')']
  | quote : Fits .quote ['\'']
  | operator {c : Char} (h : c ∈ ['+', '-', '*', '/', '>', '<', '=']) : Fits .operator [c]

/-- The longest prefix of a text that the grammar has, and its kind. -/
def Longest (cs : List Char) (kind : TokenKind) (raw : List Char) : Prop :=
  (Fits kind raw ∧ raw <+: cs) ∧ ∀ k r, Fits k r → r <+: cs → r.length ≤ raw.length

/-! ## Classes of characters -/

theorem isDigit_iff {c : Char} : isDigit c = true ↔ c.isDigit = true := Iff.rfl

theorem isNameStart_iff {c : Char} : isNameStart c = true ↔ c.isAlpha = true ∨ c = '_' := by
  have hupper : c.isUpper = decide ('A' ≤ c ∧ c ≤ 'Z') := rfl
  have hlower : c.isLower = ('a' ≤ c && c ≤ 'z') := rfl
  have halpha : c.isAlpha = (c.isUpper || c.isLower) := rfl
  rw [halpha, hupper, hlower, isNameStart]
  simp only [Bool.or_eq_true, Bool.and_eq_true, decide_eq_true_eq, beq_iff_eq]
  exact or_congr_left or_comm

theorem isNameChar_iff {c : Char} : isNameChar c = true ↔ c.isAlphanum = true ∨ c = '_' := by
  rw [isNameChar, Bool.or_eq_true, isNameStart_iff, isDigit_iff, Char.isAlphanum,
    Bool.or_eq_true, or_right_comm]

theorem isSign_iff {c : Char} : isSign c = true ↔ c = '+' ∨ c = '-' := by
  simp [isSign]

theorem not_isDigit_of_isNameStart {c : Char} (h : isNameStart c = true) :
    isDigit c = false := by
  simp only [isNameStart, Bool.or_eq_true, Bool.and_eq_true, decide_eq_true_eq, beq_iff_eq,
    Char.le_def, UInt32.le_iff_toNat_le] at h
  simp only [isDigit, Bool.and_eq_false_iff, decide_eq_false_iff_not, Char.le_def,
    UInt32.le_iff_toNat_le, not_le]
  rcases h with (h | h) | rfl
  · exact .inr (by have : '9'.val.toNat = 57 := rfl; have : 'a'.val.toNat = 97 := rfl; omega)
  · exact .inr (by have : '9'.val.toNat = 57 := rfl; have : 'A'.val.toNat = 65 := rfl; omega)
  · exact .inr (by decide)

theorem not_isDigit_of_isSign {c : Char} (h : isSign c = true) : isDigit c = false := by
  rcases isSign_iff.mp h with rfl | rfl <;> decide

theorem not_isNameStart_of_isSign {c : Char} (h : isSign c = true) : isNameStart c = false := by
  rcases isSign_iff.mp h with rfl | rfl <;> decide

/-! ## One branch for each first character -/

theorem first?_digit {c : Char} (h : isDigit c = true) (cs : List Char) :
    first? (c :: cs) = some (number (c :: cs)) := by
  simp only [first?, h, if_true]

theorem first?_nameStart {c : Char} (h : isNameStart c = true) (cs : List Char) :
    first? (c :: cs) = some ⟨.name, c :: cs.takeWhile isNameChar⟩ := by
  simp only [first?, not_isDigit_of_isNameStart h, h, if_true]
  rfl

theorem first?_sign_digit {c d : Char} (hc : isSign c = true) (hd : isDigit d = true)
    (cs : List Char) :
    first? (c :: d :: cs) = some ⟨(number (d :: cs)).kind, c :: (number (d :: cs)).raw⟩ := by
  simp [first?, not_isDigit_of_isSign hc, not_isNameStart_of_isSign hc, hc, hd]

theorem first?_sign_alone {c : Char} {cs : List Char} (hc : isSign c = true)
    (hcs : Halts isDigit cs) : first? (c :: cs) = some ⟨.operator, [c]⟩ := by
  have hany : cs.head?.any isDigit = false := by
    cases cs with
    | nil => rfl
    | cons d ds => exact hcs d rfl
  simp [first?, not_isDigit_of_isSign hc, not_isNameStart_of_isSign hc, hc, hany]

theorem first?_quotes (cs : List Char) : first? ('"' :: cs) = string? cs := by
  rfl

theorem first?_single {c : Char} {kind : TokenKind} (h : singleKind? c = some kind)
    (cs : List Char) : first? (c :: cs) = some ⟨kind, [c]⟩ := by
  unfold singleKind? at h
  split at h <;> cases h <;> rfl

theorem string?_append {cs : List Char} (h : '"' ∉ cs) (rest : List Char) :
    string? (cs ++ '"' :: rest) = some ⟨.string, '"' :: cs ++ ['"']⟩ := by
  have hrun : ∀ c ∈ cs, decide (c ≠ '"') = true := by
    intro c hc
    have hne : c ≠ '"' := fun heq => h (heq ▸ hc)
    simp [hne]
  have hhalts : Halts (fun c => decide (c ≠ '"')) ('"' :: rest) := halts_cons (by decide) rest
  unfold string?
  rw [if_pos (by simp), takeWhile_append_halts hrun hhalts]

/-! ## Numbers -/

/-- A point behind digits makes the number a float, whatever follows. -/
theorem number_point {ds : List Char} (hds : ∀ c ∈ ds, isDigit c = true) (rest : List Char) :
    number (ds ++ '.' :: rest) = ⟨.float, ds ++ '.' :: rest.takeWhile isDigit⟩ := by
  have hhalts : Halts isDigit ('.' :: rest) := halts_cons (by decide) rest
  unfold number
  rw [takeWhile_append_halts hds hhalts, dropWhile_append_halts hds hhalts]
  rfl

/-- Digits with neither a digit nor a point behind them are an integer. -/
theorem number_digits {ds rest : List Char} (hds : ∀ c ∈ ds, isDigit c = true)
    (hdigit : Halts isDigit rest) (hpoint : Halts (· == '.') rest) :
    number (ds ++ rest) = ⟨.int, ds⟩ := by
  unfold number
  rw [takeWhile_append_halts hds hdigit, dropWhile_append_halts hds hdigit]
  cases rest with
  | nil => rfl
  | cons c cs =>
    have hc : c ≠ '.' := by simpa using hpoint c rfl
    simp only
    split
    · rename_i heq
      exact absurd (List.cons.inj heq).1 hc
    · rfl

/-- The number at the head of a text that begins with one. -/
theorem number_append {kind : TokenKind} {cs rest : List Char} (h : Unsigned kind cs)
    (hdigit : Halts isDigit rest) (hpoint : Halts (· == '.') rest) :
    number (cs ++ rest) = ⟨kind, cs⟩ := by
  cases h with
  | int hne hds => exact number_digits hds hdigit hpoint
  | @float ds fs hne hds hfs =>
    rw [List.append_assoc, List.cons_append, number_point hds, takeWhile_append_halts _ hdigit]
    exact hfs

theorem Unsigned.head {kind : TokenKind} {cs : List Char} (h : Unsigned kind cs) :
    ∃ d ds, cs = d :: ds ∧ isDigit d = true := by
  cases h with
  | @int ds hne hds =>
    obtain ⟨d, ds, rfl⟩ := List.exists_cons_of_ne_nil hne
    exact ⟨d, ds, rfl, hds d List.mem_cons_self⟩
  | @float ds fs hne hds hfs =>
    obtain ⟨d, ds, rfl⟩ := List.exists_cons_of_ne_nil hne
    exact ⟨d, ds ++ '.' :: fs, rfl, hds d List.mem_cons_self⟩

theorem Unsigned.ne_nil {kind : TokenKind} {raw : List Char} (h : Unsigned kind raw) :
    raw ≠ [] := by
  obtain ⟨d, ds, rfl, _⟩ := h.head
  exact List.cons_ne_nil d ds

/-- The number at the head of a text is an unsigned one, and stands there. -/
theorem number_sound {c : Char} (hc : isDigit c = true) (cs : List Char) :
    Unsigned (number (c :: cs)).kind (number (c :: cs)).raw ∧
      (number (c :: cs)).raw <+: c :: cs := by
  have hne : (c :: cs).takeWhile isDigit ≠ [] := by simp [hc]
  have hds : ∀ d ∈ (c :: cs).takeWhile isDigit, d.isDigit = true :=
    fun d hd => List.mem_takeWhile_imp hd
  have hsplit := List.takeWhile_append_dropWhile (p := isDigit) (l := c :: cs)
  unfold number
  split
  · rename_i rest heq
    refine ⟨.float hne hds fun d hd => List.mem_takeWhile_imp (p := isDigit) hd, ?_⟩
    rw [heq] at hsplit
    refine ⟨rest.dropWhile isDigit, ?_⟩
    rw [List.append_assoc, List.cons_append, List.takeWhile_append_dropWhile, hsplit]
  · exact ⟨.int hne hds, List.takeWhile_prefix isDigit⟩

/-- No unsigned number at the head of a text is longer than the one that is cut there. -/
theorem number_longest {kind : TokenKind} {r cs : List Char} (h : Unsigned kind r)
    (hr : r <+: cs) : r.length ≤ (number cs).raw.length := by
  cases h with
  | int hne hds =>
    have hle := length_run_le (p := isDigit) hds hr
    -- a point behind the digits only makes the number longer
    unfold number
    split
    · simp only [List.length_append]
      omega
    · exact hle
  | @float ds fs hne hds hfs =>
    obtain ⟨rest, rfl⟩ := hr
    have hle := length_run_le (p := isDigit) hfs (List.prefix_append fs rest)
    rw [List.append_assoc, List.cons_append, number_point hds]
    simp only [List.length_append, List.length_cons]
    omega

/-! ## The lexeme at the head of a text -/

/-- A text at which every lexeme before it ends. -/
def Breaks (rest : List Char) : Prop := Halts isNameChar rest ∧ Halts (· == '.') rest

theorem Breaks.halts_isDigit {rest : List Char} (h : Breaks rest) : Halts isDigit rest := by
  intro c hc
  have hname := h.1 c hc
  simp only [isNameChar, Bool.or_eq_false_iff] at hname
  exact hname.2

theorem breaks_nil : Breaks [] := ⟨halts_nil _, halts_nil _⟩

theorem operator_cases {c : Char} (h : c ∈ ['+', '-', '*', '/', '>', '<', '=']) :
    isSign c = true ∨ singleKind? c = some .operator := by
  simp only [List.mem_cons, List.not_mem_nil, or_false] at h
  rcases h with rfl | rfl | rfl | rfl | rfl | rfl | rfl <;> simp [isSign, singleKind?]

/-- A text of the grammar is cut whole where it ends. -/
theorem first?_append {kind : TokenKind} {raw rest : List Char} (h : Fits kind raw)
    (hrest : Breaks rest) : first? (raw ++ rest) = some ⟨kind, raw⟩ := by
  cases h with
  | @name c cs hc hcs =>
    have hrun : ∀ d ∈ cs, isNameChar d = true := fun d hd => isNameChar_iff.mpr (hcs d hd)
    rw [List.cons_append, first?_nameStart (isNameStart_iff.mpr hc),
      takeWhile_append_halts hrun hrest.1]
  | unsigned h =>
    obtain ⟨d, ds, rfl, hd⟩ := h.head
    rw [List.cons_append, first?_digit hd, ← List.cons_append,
      number_append h hrest.halts_isDigit hrest.2]
  | signed hc h =>
    obtain ⟨d, ds, rfl, hd⟩ := h.head
    rw [List.cons_append, List.cons_append, first?_sign_digit (isSign_iff.mpr hc) hd,
      ← List.cons_append, number_append h hrest.halts_isDigit hrest.2]
  | string h =>
    rw [List.cons_append, List.cons_append, List.append_assoc, first?_quotes]
    exact string?_append h rest
  | openParen => exact first?_single rfl rest
  | closeParen => exact first?_single rfl rest
  | quote => exact first?_single rfl rest
  | operator h =>
    rcases operator_cases h with hsign | hsingle
    · exact first?_sign_alone hsign hrest.halts_isDigit
    · exact first?_single hsingle rest

/-- A text is one token of at most one kind. -/
theorem Fits.kind_unique {k k' : TokenKind} {raw : List Char} (h : Fits k raw)
    (h' : Fits k' raw) : k = k' := by
  have hk := first?_append h breaks_nil
  rw [first?_append h' breaks_nil] at hk
  cases hk
  rfl

/-- Where a prefix of a text is in the grammar, a lexeme at least as long is cut. -/
theorem exists_first?_of_fits {kind : TokenKind} {r cs : List Char} (h : Fits kind r)
    (hr : r <+: cs) : ∃ l, first? cs = some l ∧ r.length ≤ l.raw.length := by
  obtain ⟨rest, rfl⟩ := hr
  cases h with
  | @name c cs hc hcs =>
    refine ⟨_, first?_nameStart (isNameStart_iff.mpr hc) _, ?_⟩
    have hle := length_run_le (fun d hd => isNameChar_iff.mpr (hcs d hd))
      (List.prefix_append cs rest)
    simpa using hle
  | @unsigned kind cs h =>
    obtain ⟨d, ds, rfl, hd⟩ := h.head
    exact ⟨_, first?_digit hd _, number_longest h (List.prefix_append _ rest)⟩
  | @signed kind c cs hc h =>
    obtain ⟨d, ds, rfl, hd⟩ := h.head
    refine ⟨_, first?_sign_digit (isSign_iff.mpr hc) hd _, ?_⟩
    exact Nat.succ_le_succ (number_longest h (List.prefix_append _ rest))
  | @string cs h =>
    refine ⟨⟨.string, '"' :: cs ++ ['"']⟩, ?_, le_rfl⟩
    rw [List.cons_append, List.cons_append, List.append_assoc, first?_quotes]
    exact string?_append h rest
  | openParen => exact ⟨_, first?_single rfl rest, le_rfl⟩
  | closeParen => exact ⟨_, first?_single rfl rest, le_rfl⟩
  | quote => exact ⟨_, first?_single rfl rest, le_rfl⟩
  | @operator c h =>
    rcases operator_cases h with hsign | hsingle
    · -- a sign before a digit is cut together with the number
      cases rest with
      | nil => exact ⟨_, first?_sign_alone hsign (halts_nil _), le_rfl⟩
      | cons d ds =>
        by_cases hd : isDigit d = true
        · exact ⟨_, first?_sign_digit hsign hd ds, by simp⟩
        · exact ⟨_, first?_sign_alone hsign (halts_cons (by simpa using hd) ds), le_rfl⟩
    · exact ⟨_, first?_single hsingle rest, le_rfl⟩

theorem fits_of_singleKind? {c : Char} {kind : TokenKind} (h : singleKind? c = some kind) :
    Fits kind [c] := by
  unfold singleKind? at h
  split at h <;> cases h
  · exact .openParen
  · exact .closeParen
  · exact .quote
  all_goals exact .operator (by decide)

theorem string?_sound {cs : List Char} {l : Lexeme} (h : string? cs = some l) :
    Fits l.kind l.raw ∧ l.raw <+: '"' :: cs := by
  unfold string? at h
  split at h
  · rename_i hmem
    cases h
    have hnot : '"' ∉ cs.takeWhile (· ≠ '"') := fun hm => by
      simpa using List.mem_takeWhile_imp hm
    refine ⟨.string hnot, ?_⟩
    have hsplit := List.takeWhile_append_dropWhile (p := (· ≠ '"')) (l := cs)
    have hhalts := halts_dropWhile (· ≠ '"') cs
    cases hdrop : cs.dropWhile (· ≠ '"') with
    | nil =>
      -- all of the text would be free of quotes
      rw [hdrop, List.append_nil] at hsplit
      rw [hsplit] at hnot
      exact absurd (by simpa using hmem) hnot
    | cons c rest =>
      rw [hdrop] at hhalts hsplit
      obtain rfl : c = '"' := by simpa using hhalts c rfl
      refine ⟨rest, ?_⟩
      rw [List.cons_append, List.cons_append, List.append_assoc]
      exact congrArg ('"' :: ·) hsplit
  · exact nomatch h

/-- The lexeme at the head of a text is in the grammar, and stands there. -/
theorem first?_sound {cs : List Char} {l : Lexeme} (h : first? cs = some l) :
    Fits l.kind l.raw ∧ l.raw <+: cs := by
  cases cs with
  | nil => cases h
  | cons c cs =>
    by_cases hdigit : isDigit c = true
    · rw [first?_digit hdigit] at h
      cases h
      obtain ⟨hu, hp⟩ := number_sound hdigit cs
      exact ⟨.unsigned hu, hp⟩
    by_cases hname : isNameStart c = true
    · rw [first?_nameStart hname] at h
      cases h
      refine ⟨.name (isNameStart_iff.mp hname) fun d hd => ?_, ?_⟩
      · exact isNameChar_iff.mp (List.mem_takeWhile_imp hd)
      · exact (List.prefix_cons_inj c).mpr (List.takeWhile_prefix isNameChar)
    by_cases hsign : isSign c = true
    · cases cs with
      | nil =>
        rw [first?_sign_alone hsign (halts_nil _)] at h
        cases h
        refine ⟨.operator ?_, List.prefix_rfl⟩
        rcases isSign_iff.mp hsign with rfl | rfl <;> decide
      | cons d ds =>
        by_cases hd : isDigit d = true
        · rw [first?_sign_digit hsign hd] at h
          cases h
          obtain ⟨hu, hp⟩ := number_sound hd ds
          exact ⟨.signed (isSign_iff.mp hsign) hu, (List.prefix_cons_inj c).mpr hp⟩
        · rw [first?_sign_alone hsign (halts_cons (by simpa using hd) ds)] at h
          cases h
          refine ⟨.operator ?_, ⟨d :: ds, rfl⟩⟩
          rcases isSign_iff.mp hsign with rfl | rfl <;> decide
    by_cases hquotes : c = '"'
    · subst hquotes
      exact string?_sound h
    · simp only [first?, hdigit, hname, hsign, hquotes, if_false] at h
      obtain ⟨kind, hkind, rfl⟩ := Option.map_eq_some_iff.mp h
      exact ⟨fits_of_singleKind? hkind, ⟨cs, rfl⟩⟩

/-- The lexeme at the head of a text is its longest prefix in the grammar. -/
theorem first?_eq_some_iff {cs : List Char} {l : Lexeme} :
    first? cs = some l ↔ Longest cs l.kind l.raw := by
  constructor
  · intro h
    refine ⟨first?_sound h, fun k r hfits hr => ?_⟩
    obtain ⟨l', hl', hle⟩ := exists_first?_of_fits hfits hr
    rw [h] at hl'
    cases hl'
    exact hle
  · rintro ⟨⟨hfits, hp⟩, hmax⟩
    obtain ⟨l', hl', hle⟩ := exists_first?_of_fits hfits hp
    obtain ⟨hfits', hp'⟩ := first?_sound hl'
    -- prefixes of one length are one text, and that is a token of one kind only
    have hraw : l.raw = l'.raw :=
      (List.prefix_of_prefix_length_le hp hp' hle).eq_of_length
        (Nat.le_antisymm hle (hmax _ _ hfits' hp'))
    have hkind : l.kind = l'.kind := by
      rw [hraw] at hfits
      exact hfits.kind_unique hfits'
    rw [hl']
    cases l
    cases l'
    cases hraw
    cases hkind
    rfl

/-- No lexeme begins a text just when the grammar has no prefix of it. -/
theorem first?_eq_none_iff {cs : List Char} :
    first? cs = none ↔ ∀ k r, Fits k r → ¬ r <+: cs := by
  constructor
  · intro h k r hfits hr
    obtain ⟨l, hl, _⟩ := exists_first?_of_fits hfits hr
    rw [h] at hl
    cases hl
  · intro h
    cases hl : first? cs with
    | none => rfl
    | some l =>
      obtain ⟨hfits, hp⟩ := first?_sound hl
      exact absurd hp (h _ _ hfits)

/-! ## Kinds of the grammar -/

theorem Unsigned.kind_cases {kind : TokenKind} {cs : List Char} (h : Unsigned kind cs) :
    kind = .int ∨ kind = .float := by
  cases h with
  | int => exact .inl rfl
  | float => exact .inr rfl

theorem Fits.kind_ne_eof {kind : TokenKind} {raw : List Char} (h : Fits kind raw) :
    kind ≠ .eof := by
  cases h with
  | unsigned h => rcases h.kind_cases with rfl | rfl <;> decide
  | signed _ h => rcases h.kind_cases with rfl | rfl <;> decide
  | _ => decide

/-- Only a string is of the kind of strings. -/
theorem Fits.string_inv {raw : List Char} (h : Fits .string raw) :
    ∃ cs, '"' ∉ cs ∧ raw = '"' :: cs ++ ['"'] := by
  cases h with
  | unsigned h => cases h
  | signed _ h => cases h
  | string h => exact ⟨_, h, rfl⟩

/-- A name begins with a letter or underscore and goes on with these and digits. -/
theorem Fits.name_inv {raw : List Char} (h : Fits .name raw) :
    ∃ c cs, raw = c :: cs ∧ (c.isAlpha = true ∨ c = '_') ∧
      ∀ d ∈ cs, d.isAlphanum = true ∨ d = '_' := by
  cases h with
  | name hc hcs => exact ⟨_, _, rfl, hc, hcs⟩
  | unsigned h => cases h
  | signed _ h => cases h

theorem Fits.length_pos {kind : TokenKind} {raw : List Char} (h : Fits kind raw) :
    0 < raw.length := by
  cases h with
  | unsigned h => exact List.length_pos_iff.mpr h.ne_nil
  | _ => simp

/-- All characters of a name go on with one. -/
theorem Fits.isNameChar {raw : List Char} (h : Fits .name raw) :
    ∀ c ∈ raw, isNameChar c = true := by
  obtain ⟨c, cs, rfl, hc, hcs⟩ := h.name_inv
  intro d hd
  rw [isNameChar_iff]
  rcases List.mem_cons.mp hd with rfl | hd
  · exact hc.imp_left fun ha => by rw [Char.isAlphanum, ha, Bool.true_or]
  · exact hcs d hd

/-- A longest name ends where no character goes on with it. -/
theorem Longest.halts_isNameChar {cs raw : List Char} (h : Longest cs .name raw) :
    Halts isNameChar (cs.drop raw.length) := by
  obtain ⟨⟨hfits, rest, rfl⟩, hlongest⟩ := h
  rw [List.drop_left]
  intro d hd
  by_contra hname
  -- one more character would make a longer name
  obtain ⟨c, cs, rfl, hc, hcs⟩ := hfits.name_inv
  obtain ⟨tail, rfl⟩ : ∃ tail, rest = d :: tail := by
    cases rest with
    | nil => cases hd
    | cons e tail => exact ⟨tail, by rw [Option.some.inj hd]⟩
  have hlonger : Fits .name (c :: (cs ++ [d])) := by
    refine .name hc fun e he => ?_
    rcases List.mem_append.mp he with he | he
    · exact hcs e he
    · rw [List.mem_singleton.mp he, ← isNameChar_iff]
      simpa using hname
  have hle := hlongest .name _ hlonger ⟨tail, by simp⟩
  simp only [List.length_cons, List.length_append, List.length_nil] at hle
  omega

end Lexeme

end MiniLisp
