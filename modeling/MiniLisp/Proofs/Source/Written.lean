import MiniLisp.Node.Source
import MiniLisp.Proofs.Source.Grammar

/-!
# Written texts

`Lexes cs xs` says that the text `cs` is cut into tokens for the symbols `xs` wherever it
stands, if what follows it breaks off the last lexeme. Texts of one lexeme lex
(`lexes_of_fits`), and texts that lex do so one behind the other (`Lexes.append`), with blanks
anywhere between them.
-/

namespace MiniLisp

namespace Cursor

theorem skipWhile_of_halts {c : Cursor} {p : Char → Bool} (h : Halts p c.rest) :
    c.skipWhile p = c := by
  obtain ⟨pos, rest⟩ := c
  have hnone : rest.takeWhile p = [] := by
    have hrun := takeWhile_append_halts (p := p) (List.forall_mem_nil _) h
    simpa using hrun
  simp [skipWhile, skip, hnone]

/-- A token is cut from what is left when the blanks are skipped. -/
theorem next_congr {c d : Cursor} (h : c.skipWhile Text.isBlank = d.skipWhile Text.isBlank) :
    c.next = d.next := by
  unfold next
  rw [h]

theorem tokens_congr {c d : Cursor} (h : c.next = d.next) : c.tokens = d.tokens := by
  have hcuts := d.tokens_cuts
  generalize d.tokens = row at hcuts ⊢
  obtain ⟨ts, e⟩ := row
  refine Cuts.tokens_eq ?_
  cases hcuts with
  | atEnd hnext ht => exact .atEnd (h.trans hnext) ht
  | token hnext ht htail => exact .token (h.trans hnext) ht htail
  | error hnext => exact .error (h.trans hnext)

/-- Blanks before a token are not seen. -/
theorem tokens_blank {b : Char} (hb : Text.isBlank b = true) (pos : Nat) (rest : List Char) :
    (⟨pos, b :: rest⟩ : Cursor).tokens = (⟨pos + 1, rest⟩ : Cursor).tokens := by
  refine tokens_congr (next_congr ?_)
  simp only [skipWhile, skip, List.takeWhile_cons, hb, if_true, List.length_cons,
    List.take_succ_cons, List.drop_succ_cons, mk.injEq, and_true]
  omega

theorem tokens_nil (pos : Nat) : (⟨pos, []⟩ : Cursor).tokens = ([Token.atEnd pos], none) :=
  (Cuts.atEnd rfl rfl).tokens_eq

/-- A lexeme at the head of a text is its first token. -/
theorem tokens_lexeme {kind : TokenKind} {raw rest : List Char}
    (hfirst : Lexeme.first? (raw ++ rest) = some ⟨kind, raw⟩)
    (hblank : Halts Text.isBlank (raw ++ rest)) (pos : Nat) :
    (⟨pos, raw ++ rest⟩ : Cursor).tokens =
      ((⟨kind, raw⟩ : Lexeme).token pos :: (⟨pos + raw.length, rest⟩ : Cursor).tokens.1,
        (⟨pos + raw.length, rest⟩ : Cursor).tokens.2) := by
  have hskip : (⟨pos, raw ++ rest⟩ : Cursor).skipWhile Text.isBlank = ⟨pos, raw ++ rest⟩ :=
    skipWhile_of_halts hblank
  have hkind : ((⟨kind, raw⟩ : Lexeme).token pos).kind ≠ .eof := by
    rw [Lexeme.token_kind]
    exact (Lexeme.first?_sound hfirst).1.kind_ne_eof
  have hnext : (⟨pos, raw ++ rest⟩ : Cursor).next =
      (.ok ((⟨kind, raw⟩ : Lexeme).token pos), ⟨pos + raw.length, rest⟩) := by
    refine (next_eq_token_iff hkind).mpr ⟨⟨kind, raw⟩, by rw [hskip]; exact hfirst, ?_, ?_⟩
    · rw [hskip]
    · rw [hskip, skip]
      simp
  exact (Cuts.token hnext hkind (tokens_cuts _)).tokens_eq

end Cursor

/-! ## Lexemes are not blank -/

/-- The visible characters of the basic block. -/
theorem isBlank_of_visible {c : Char} (hlow : 33 ≤ c.toNat) (hhigh : c.toNat ≤ 126) :
    Text.isBlank c = false := by
  simp only [Text.isBlank, Bool.or_eq_false_iff, Bool.and_eq_false_iff, decide_eq_false_iff_not,
    beq_eq_false_iff_ne]
  omega

theorem visible_of_isNameChar {c : Char} (h : isNameChar c = true) :
    33 ≤ c.toNat ∧ c.toNat ≤ 126 := by
  have hbounds : ∀ {a b : Char}, 33 ≤ a.toNat → b.toNat ≤ 126 → a ≤ c ∧ c ≤ b →
      33 ≤ c.toNat ∧ c.toNat ≤ 126 :=
    fun hlow hhigh hc => ⟨hlow.trans hc.1, le_trans hc.2 hhigh⟩
  simp only [isNameChar, isNameStart, isDigit, Bool.or_eq_true, Bool.and_eq_true,
    decide_eq_true_eq, beq_iff_eq] at h
  rcases h with ((h | h) | rfl) | h
  · exact hbounds (by decide) (by decide) h
  · exact hbounds (by decide) (by decide) h
  · decide
  · exact hbounds (by decide) (by decide) h

theorem isBlank_of_isNameChar {c : Char} (h : isNameChar c = true) : Text.isBlank c = false :=
  isBlank_of_visible (visible_of_isNameChar h).1 (visible_of_isNameChar h).2

theorem isNameChar_of_isDigit {c : Char} (h : isDigit c = true) : isNameChar c = true := by
  rw [isNameChar, h, Bool.or_true]

/-- No token begins with a blank. -/
theorem Lexeme.Fits.halts_isBlank {kind : TokenKind} {raw : List Char}
    (h : Lexeme.Fits kind raw) (rest : List Char) : Halts Text.isBlank (raw ++ rest) := by
  cases h with
  | @name c cs hc _ =>
    refine halts_cons (isBlank_of_isNameChar ?_) _
    exact Lexeme.isNameChar_iff.mpr (hc.imp_left fun ha => by simp [Char.isAlphanum, ha])
  | unsigned h =>
    obtain ⟨d, ds, rfl, hd⟩ := h.head
    exact halts_cons (isBlank_of_isNameChar (isNameChar_of_isDigit hd)) _
  | signed hc _ => exact halts_cons (by rcases hc with rfl | rfl <;> decide) _
  | string _ => exact halts_cons (by decide) _
  | openParen => exact halts_cons (by decide) _
  | closeParen => exact halts_cons (by decide) _
  | quote => exact halts_cons (by decide) _
  | operator h =>
    simp only [List.mem_cons, List.not_mem_nil, or_false] at h
    exact halts_cons (by rcases h with rfl | rfl | rfl | rfl | rfl | rfl | rfl <;> decide) _

/-! ## Texts that lex -/

/-- Wherever the text stands, with something behind it that breaks lexemes off, it is cut into
tokens for these symbols, and what is behind it is cut as if it stood alone. -/
def Lexes (cs : List Char) (xs : List Terminal) : Prop :=
  ∀ pos rest, Lexeme.Breaks rest → ∃ ts, ts.map Token.terminal? = xs.map some ∧
    (⟨pos, cs ++ rest⟩ : Cursor).tokens =
      (ts ++ (⟨pos + cs.length, rest⟩ : Cursor).tokens.1,
        (⟨pos + cs.length, rest⟩ : Cursor).tokens.2)

theorem lexes_nil : Lexes [] [] := fun _ _ _ => ⟨[], rfl, rfl⟩

theorem Lexeme.Breaks.append {cs rest : List Char} (hcs : Lexeme.Breaks cs)
    (hrest : Lexeme.Breaks rest) : Lexeme.Breaks (cs ++ rest) := by
  cases cs with
  | nil => exact hrest
  | cons c cs =>
    obtain ⟨hname, hpoint⟩ := hcs
    exact ⟨halts_cons (hname c rfl) _, halts_cons (p := fun x => x == '.') (hpoint c rfl) _⟩

theorem Lexeme.breaks_cons {c : Char} (hname : isNameChar c = false) (hpoint : c ≠ '.')
    (cs : List Char) : Lexeme.Breaks (c :: cs) :=
  ⟨halts_cons hname cs, halts_cons (by simpa using hpoint) cs⟩

/-- Texts lex one behind the other if the second breaks the first off. -/
theorem Lexes.append {as bs : List Char} {xs ys : List Terminal} (ha : Lexes as xs)
    (hb : Lexes bs ys) (hbreaks : Lexeme.Breaks bs) : Lexes (as ++ bs) (xs ++ ys) := by
  intro pos rest hrest
  obtain ⟨ts, hts, has⟩ := ha pos (bs ++ rest) (hbreaks.append hrest)
  obtain ⟨us, hus, hbs⟩ := hb (pos + as.length) rest hrest
  -- the second text stands behind the first, and what follows both behind the second
  refine ⟨ts ++ us, by rw [List.map_append, hts, hus, List.map_append], ?_⟩
  rw [List.append_assoc, has, hbs, List.length_append, List.append_assoc, Nat.add_assoc]

/-- A blank before a text is not seen. -/
theorem Lexes.blank {cs : List Char} {xs : List Terminal} (h : Lexes cs xs) {b : Char}
    (hb : Text.isBlank b = true) : Lexes (b :: cs) xs := by
  intro pos rest hrest
  obtain ⟨ts, hts, hcs⟩ := h (pos + 1) rest hrest
  refine ⟨ts, hts, ?_⟩
  rw [List.cons_append, Cursor.tokens_blank hb, hcs, List.length_cons,
    show pos + 1 + cs.length = pos + (cs.length + 1) by omega]

/-- A text of the grammar lexes to its symbol. -/
theorem lexes_of_fits {kind : TokenKind} {raw : List Char} {x : Terminal}
    (h : Lexeme.Fits kind raw) (hx : ∀ pos, ((⟨kind, raw⟩ : Lexeme).token pos).terminal? = some x) :
    Lexes raw [x] := by
  intro pos rest hrest
  refine ⟨[(⟨kind, raw⟩ : Lexeme).token pos], by simp [hx pos], ?_⟩
  exact Cursor.tokens_lexeme (Lexeme.first?_append h hrest)
    (h.halts_isBlank rest) pos

/-- A character that is a token by itself may stand right before any text. -/
theorem Lexes.single {c : Char} {kind : TokenKind} {x : Terminal} {cs : List Char}
    {xs : List Terminal} (hc : singleKind? c = some kind)
    (hx : ∀ pos, ((⟨kind, [c]⟩ : Lexeme).token pos).terminal? = some x) (h : Lexes cs xs) :
    Lexes (c :: cs) (x :: xs) := by
  intro pos rest hrest
  obtain ⟨ts, hts, hcs⟩ := h (pos + 1) rest hrest
  refine ⟨(⟨kind, [c]⟩ : Lexeme).token pos :: ts, by simp [hx pos, hts], ?_⟩
  have hlexeme : Lexeme.first? ([c] ++ (cs ++ rest)) = some ⟨kind, [c]⟩ :=
    Lexeme.first?_single hc _
  have hhead := Cursor.tokens_lexeme hlexeme
    ((Lexeme.fits_of_singleKind? hc).halts_isBlank (cs ++ rest)) pos
  rw [List.cons_append, show c :: (cs ++ rest) = [c] ++ (cs ++ rest) from rfl, hhead,
    List.length_singleton, hcs, List.length_cons,
    show pos + 1 + cs.length = pos + (cs.length + 1) by omega]
  rfl

/-- Parentheses may stand around any text. -/
theorem Lexes.parens {cs : List Char} {xs : List Terminal} (h : Lexes cs xs) :
    Lexes ('(' :: (cs ++ [')'])) (.openParen :: (xs ++ [.closeParen])) := by
  refine Lexes.single (show singleKind? '(' = some .openParen from rfl) (fun _ => rfl)
    (h.append ?_ ?_)
  · exact Lexes.single (show singleKind? ')' = some .closeParen from rfl) (fun _ => rfl) lexes_nil
  · exact Lexeme.breaks_cons (by decide) (by decide) []

/-- A quote may stand before any text. -/
theorem Lexes.quoted {cs : List Char} {xs : List Terminal} (h : Lexes cs xs) :
    Lexes ('\'' :: cs) (.quote :: xs) :=
  Lexes.single (show singleKind? '\'' = some .quote from rfl) (fun _ => rfl) h

/-- A text that lexes alone is cut whole. -/
theorem Lexes.cutsInto {cs : List Char} {xs : List Terminal} (h : Lexes cs xs) :
    ∃ ts, ts.map Token.terminal? = xs.map some ∧
      (Cursor.ofText cs).tokens = (ts ++ [Token.atEnd cs.length], none) := by
  obtain ⟨ts, hts, hcs⟩ := h 0 [] Lexeme.breaks_nil
  rw [List.append_nil, Cursor.tokens_nil, Nat.zero_add] at hcs
  exact ⟨ts, hts, hcs⟩

end MiniLisp
