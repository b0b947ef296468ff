import MiniLisp.Proofs.Decimal.FloatRoundTrip
import MiniLisp.Proofs.Source.Reading
import MiniLisp.Proofs.Source.Written

/-!
# Integers that are too long to be read

The limit on the digits of an integer is met when its token has been taken, so it is no error of
the text: reading stops with a fault. `parse_longLiteral` says so of a text that begins with such
an integer, and `parse_digits` of a row of digits on a line.
-/

namespace MiniLisp

/-- An integer with more digits than are read is taken and found out only then. -/
theorem Parser.form_longLiteral {p : Parser} {t u : Token} {ts : List Token} (levels : Nat)
    (hrow : p.tokens.1 = t :: u :: ts) (hkind : t.kind = .int)
    (hlong : Decimal.digitLimit < (Decimal.unsigned t.content).length) :
    ∃ q, form (levels + 1) p =
      .failed (.fault (.literalTooLong (Decimal.unsigned t.content).length)) q := by
  have hcurrent : p.current = t := current_eq hrow
  have hatom : atom p.current =
      .error (.fault (.literalTooLong (Decimal.unsigned t.content).length)) := by
    rw [hcurrent]
    simp [atom, hkind, Decimal.readInt?, Nat.not_le.mpr hlong]
  obtain ⟨q, lt, heq, _⟩ := take_of_tokens hrow (by simp) (by simp [hcurrent, hkind])
  refine ⟨q, ?_⟩
  unfold form
  split
  case h_1 hother | h_2 hother | h_3 hother | h_4 hother => simp [hcurrent, hkind] at hother
  all_goals
    rw [heq]
    simp only [hatom]

/-- A text that begins with an integer of more digits than are read has no forms, and no error of
reading either. -/
theorem parse_longLiteral [Host] {cs : List Char} {t : Token} {ts : List Token}
    (hcuts : CutsInto cs (t :: ts)) (hkind : t.kind = .int)
    (hlong : Decimal.digitLimit < (Decimal.unsigned t.content).length) :
    parse cs = .error (.fault (.literalTooLong (Decimal.unsigned t.content).length)) := by
  unfold parse read
  split
  · rename_i e hstart
    have hnone := congrArg Prod.snd (Parser.start_error hstart)
    rw [hcuts] at hnone
    cases hnone
  · rename_i p hstart
    have hrow : p.tokens.1 = t :: (ts ++ [Token.atEnd cs.length]) := by
      rw [Parser.start_ok hstart, hcuts]
      rfl
    obtain ⟨u, us, hus⟩ := List.exists_cons_of_ne_nil
      (List.append_ne_nil_of_right_ne_nil ts (List.cons_ne_nil (Token.atEnd cs.length) []))
    obtain ⟨n, hn⟩ := Nat.exists_eq_add_one_of_ne_zero
      (Nat.ne_zero_of_lt (Host.hundred_levels cs))
    obtain ⟨q, hform⟩ := Parser.form_longLiteral n (hus ▸ hrow) hkind hlong
    have hgo : p.current.kind ≠ .eof := by simp [Parser.current_eq hrow, hkind]
    have hforms : p.toEnd (Host.levels cs) =
        .failed (.fault (.literalTooLong (Decimal.unsigned t.content).length)) q := by
      rw [Parser.toEnd, Parser.forms, if_neg (by simpa using hgo), hn, hform]
    simp only [hforms]
    rfl

/-! ## Rows of digits -/

section Digits

variable {ds : List Char}

/-- A row of digits on a line is one token. -/
theorem cutsInto_digits (hne : ds ≠ []) (hds : ∀ c ∈ ds, c.isDigit = true) :
    CutsInto (ds ++ ['\n']) [(⟨.int, ds⟩ : Lexeme).token 0] := by
  have hfits : Lexeme.Fits .int ds := .unsigned (.int hne hds)
  have hbreaks : Lexeme.Breaks ['\n'] := Lexeme.breaks_cons (by decide) (by decide) []
  have hhead := Cursor.tokens_lexeme (Lexeme.first?_append hfits hbreaks)
    (hfits.halts_isBlank ['\n']) 0
  rw [Cursor.tokens_blank (by decide), Cursor.tokens_nil] at hhead
  rw [CutsInto, Cursor.ofText, hhead, List.length_append, Nat.zero_add]
  rfl

theorem parse_digits [Host] (hds : ∀ c ∈ ds, c.isDigit = true)
    (hlong : Decimal.digitLimit < ds.length) :
    parse (ds ++ ['\n']) = .error (.fault (.literalTooLong ds.length)) := by
  obtain ⟨d, ds', rfl⟩ := List.exists_cons_of_length_pos (Nat.zero_lt_of_lt hlong)
  have hunsigned := Decimal.unsigned_digits (hds d List.mem_cons_self) ds'
  have hparse := parse_longLiteral (cutsInto_digits (List.cons_ne_nil d ds') hds) rfl
    (by rwa [show ((⟨.int, d :: ds'⟩ : Lexeme).token 0).content = d :: ds' from rfl, hunsigned])
  rwa [show ((⟨.int, d :: ds'⟩ : Lexeme).token 0).content = d :: ds' from rfl, hunsigned] at hparse

end Digits

end MiniLisp
