/-!
# Blank characters

The characters that separate tokens and that are trimmed from both ends of a line.
-/

namespace MiniLisp.Text

/-- A blank is a space of any script, or a control character that separates
fields or lines. -/
def isBlank (c : Char) : Bool :=
  let n := c.toNat
  (0x09 ≤ n && n ≤ 0x0D) || (0x1C ≤ n && n ≤ 0x20) || n == 0x85 || n == 0xA0 || n == 0x1680
    || (0x2000 ≤ n && n ≤ 0x200A) || n == 0x2028 || n == 0x2029 || n == 0x202F || n == 0x205F
    || n == 0x3000

/-- The text without the blanks at its two ends. -/
def trimBlanks (cs : List Char) : List Char :=
  ((cs.dropWhile isBlank).reverse.dropWhile isBlank).reverse

/-- A blank at the end of a text is not seen. -/
theorem trimBlanks_append_blank (cs : List Char) {b : Char} (hb : isBlank b = true) :
    trimBlanks (cs ++ [b]) = trimBlanks cs := by
  unfold trimBlanks
  rw [List.dropWhile_append]
  split
  · rename_i hnil
    rw [List.isEmpty_iff] at hnil
    rw [hnil, List.dropWhile_cons_of_pos hb, List.dropWhile_nil]
  · rw [List.reverse_append, List.reverse_singleton, List.singleton_append,
      List.dropWhile_cons_of_pos hb]

example : trimBlanks [' ', 'q', '\n'] = ['q'] := by decide

end MiniLisp.Text
