import Mathlib.Tactic.Common
import MiniLisp.Text.Quoted

/-!
# Literals are read as they were written

What is written for one character of a literal can be told from what follows it
(`readLiteralChar_literalChar`), and none is written as the quote that ends the literal. So a
literal ends at that quote and shows the text that it was made of (`literal_append_inj`). It has no
character below the space.
-/

namespace MiniLisp

namespace Text

/-! ## Reading a character -/

/-- The number that hexadecimal digits stand for. -/
def ofHexDigits (cs : List Char) : Nat :=
  cs.foldl (fun n c => 16 * n + if c.isDigit then c.toNat - 48 else c.toNat - 87) 0

/-- The character that is written behind a backslash, and what follows it. -/
def readEscape : List Char → Option (Char × List Char)
  | [] => none
  | e :: rest =>
    if e = 'n' then some ('\n', rest)
    else if e = 'r' then some ('\r', rest)
    else if e = 't' then some ('\t', rest)
    else if e = 'b' then some ('\x08', rest)
    else if e = 'f' then some ('\x0c', rest)
    else if e = 'u' then some (.ofNat (ofHexDigits (rest.take 4)), rest.drop 4)
    else some (e, rest)

/-- The first character that is written in a literal, and what follows it. -/
def readLiteralChar : List Char → Option (Char × List Char)
  | [] => none
  | c :: rest => if c = '\\' then readEscape rest else some (c, rest)

theorem length_hexDigits (width n : Nat) : (hexDigits width n).length = width := by
  induction width generalizing n with
  | zero => rfl
  | succ width ih =>
    rw [hexDigits, List.length_append, ih]
    rfl

theorem ofHexDigits_hexDigits : ∀ n < 0x20, ofHexDigits (hexDigits 4 n) = n := by decide

theorem readEscape_hexDigits {c : Char} (hc : c.toNat < 0x20) (rest : List Char) :
    readEscape ('u' :: hexDigits 4 c.toNat ++ rest) = some (c, rest) := by
  have hlength := length_hexDigits 4 c.toNat
  have hcode : Char.ofNat (ofHexDigits ((hexDigits 4 c.toNat ++ rest).take 4)) = c := by
    rw [List.take_left' hlength, ofHexDigits_hexDigits _ hc, Char.ofNat_toNat]
  show some (Char.ofNat (ofHexDigits ((hexDigits 4 c.toNat ++ rest).take 4)),
    (hexDigits 4 c.toNat ++ rest).drop 4) = _
  rw [hcode, List.drop_left' hlength]

/-- What is written for a character is read as it, whatever follows. -/
theorem readLiteralChar_literalChar (c : Char) (rest : List Char) :
    readLiteralChar (literalChar c ++ rest) = some (c, rest) := by
  unfold literalChar
  split_ifs with hmark hnewline hreturn htab hback hfeed hcontrol
  · simp only [Bool.or_eq_true, decide_eq_true_eq] at hmark
    rcases hmark with rfl | rfl <;> rfl
  · subst hnewline; rfl
  · subst hreturn; rfl
  · subst htab; rfl
  · subst hback; rfl
  · subst hfeed; rfl
  · exact readEscape_hexDigits hcontrol rest
  · simp only [Bool.or_eq_true, decide_eq_true_eq, not_or] at hmark
    exact if_neg hmark.2

/-- No character is written as the quote that ends a literal. -/
theorem literalChar_eq_cons (c : Char) : ∃ d ds, literalChar c = d :: ds ∧ d ≠ '"' := by
  unfold literalChar
  split_ifs with hmark hnewline hreturn htab hback hfeed hcontrol
  case neg =>
    simp only [Bool.or_eq_true, decide_eq_true_eq, not_or] at hmark
    exact ⟨c, [], rfl, hmark.1⟩
  all_goals exact ⟨'\\', _, rfl, by decide⟩

/-! ## Literals -/

/-- A literal ends at its closing quote, and shows the text that it was made of. -/
theorem literal_append_inj {cs ds rest rest' : List Char}
    (h : literal cs ++ rest = literal ds ++ rest') : cs = ds ∧ rest = rest' := by
  suffices hinside : ∀ ds, cs.flatMap literalChar ++ '"' :: rest =
      ds.flatMap literalChar ++ '"' :: rest' → cs = ds ∧ rest = rest' by
    apply hinside
    simpa [literal] using h
  clear h
  induction cs with
  | nil =>
    intro ds h
    cases ds with
    | nil => exact ⟨rfl, (List.cons.inj h).2⟩
    | cons d ds =>
      obtain ⟨e, es, htext, he⟩ := literalChar_eq_cons d
      rw [List.flatMap_cons, htext] at h
      exact absurd (List.cons.inj h).1.symm he
  | cons c cs ih =>
    intro ds h
    cases ds with
    | nil =>
      obtain ⟨e, es, htext, he⟩ := literalChar_eq_cons c
      rw [List.flatMap_cons, htext] at h
      exact absurd (List.cons.inj h).1 he
    | cons d ds =>
      rw [List.flatMap_cons, List.flatMap_cons, List.append_assoc, List.append_assoc] at h
      have hread := congrArg readLiteralChar h
      rw [readLiteralChar_literalChar, readLiteralChar_literalChar] at hread
      obtain ⟨rfl, hrest⟩ := Prod.mk.inj (Option.some.inj hread)
      obtain ⟨rfl, hsame⟩ := ih ds hrest
      exact ⟨rfl, hsame⟩

/-! ## Characters below the space -/

theorem hexDigits_printed (width n : Nat) : ∀ c ∈ hexDigits width n, 0x20 ≤ c.toNat := by
  have hdigit : ∀ k < 16, 0x20 ≤ (Nat.digitChar k).toNat := by decide
  induction width generalizing n with
  | zero => exact List.forall_mem_nil _
  | succ width ih =>
    rw [hexDigits]
    exact List.forall_mem_append.mpr
      ⟨ih _, List.forall_mem_singleton.mpr (hdigit _ (Nat.mod_lt _ (by decide)))⟩

theorem literalChar_printed (c : Char) : ∀ d ∈ literalChar c, 0x20 ≤ d.toNat := by
  unfold literalChar
  split_ifs with hmark hnewline hreturn htab hback hfeed hcontrol
  · simp only [Bool.or_eq_true, decide_eq_true_eq] at hmark
    rcases hmark with rfl | rfl <;> simp
  · simp
  · simp
  · simp
  · simp
  · simp
  · have hcode := hexDigits_printed 4 c.toNat
    exact List.forall_mem_cons.mpr ⟨by simp, List.forall_mem_cons.mpr ⟨by simp, hcode⟩⟩
  · exact List.forall_mem_singleton.mpr (Nat.le_of_not_lt hcontrol)

theorem literal_printed (cs : List Char) : ∀ c ∈ literal cs, 0x20 ≤ c.toNat := by
  refine List.forall_mem_append.mpr ⟨List.forall_mem_cons.mpr ⟨by simp, ?_⟩, by simp⟩
  intro d hd
  obtain ⟨c, _, hc⟩ := List.mem_flatMap.mp hd
  exact literalChar_printed c d hc

end Text

end MiniLisp
