/-!
# Lines of a text

`splitRows` cuts a text at every character or pair that ends a line in any convention;
`unifyNewlines` turns the two conventions with a carriage return into the plain one; and
`takeLine` takes one line of an input, which ends at a newline only.
-/

namespace MiniLisp.Text

/-- The single characters that end a row. -/
def isRowBreak (c : Char) : Bool :=
  let n := c.toNat
  (0x0A ≤ n && n ≤ 0x0D) || (0x1C ≤ n && n ≤ 0x1E) || n == 0x85 || n == 0x2028 || n == 0x2029

/-- Cuts the rest of a text into rows, `row` being what is read of the current one, last
character first. -/
def splitRowsFrom (row : List Char) : List Char → List (List Char)
  | [] => if row.isEmpty then [] else [row.reverse]
  | '\r' :: '\n' :: rest => row.reverse :: splitRowsFrom [] rest
  | c :: rest =>
    if isRowBreak c then row.reverse :: splitRowsFrom [] rest else splitRowsFrom (c :: row) rest

/-- The rows of a text without their breaks; a final break opens no further row, and a
carriage return with a newline is one break. -/
def splitRows (cs : List Char) : List (List Char) := splitRowsFrom [] cs

/-- Every carriage return, with the newline after it if there is one, becomes a newline. -/
def unifyNewlines : List Char → List Char
  | [] => []
  | '\r' :: '\n' :: rest => '\n' :: unifyNewlines rest
  | c :: rest => (if c = '\r' then '\n' else c) :: unifyNewlines rest

/-- The first line of an input, its newline included, and what follows it. -/
def takeLine (cs : List Char) : List Char × List Char :=
  (cs.takeWhile (· ≠ '\n') ++ (cs.dropWhile (· ≠ '\n')).take 1,
    (cs.dropWhile (· ≠ '\n')).drop 1)

/-- A line without the carriage returns and newlines at its end. -/
def dropLineEnd (cs : List Char) : List Char :=
  (cs.reverse.dropWhile fun c => c = '\r' || c = '\n').reverse

theorem takeLine_append (cs : List Char) : (takeLine cs).1 ++ (takeLine cs).2 = cs := by
  unfold takeLine
  rw [List.append_assoc, List.take_append_drop, List.takeWhile_append_dropWhile]

theorem length_takeLine_lt (c : Char) (cs : List Char) :
    (takeLine (c :: cs)).2.length < (c :: cs).length := by
  have h := congrArg List.length (takeLine_append (c :: cs))
  have hne : 0 < (takeLine (c :: cs)).1.length := by
    by_cases hc : c = '\n' <;> simp [takeLine, hc]
  simp only [List.length_append] at h
  omega

/-- A line is taken up to its newline. -/
theorem takeLine_append_newline {cs : List Char} (hcs : '\n' ∉ cs) (rest : List Char) :
    takeLine (cs ++ '\n' :: rest) = (cs ++ ['\n'], rest) := by
  have hline : ∀ c ∈ cs, (fun c => decide (c ≠ '\n')) c = true := by
    intro c hc
    have hne : c ≠ '\n' := fun heq => hcs (heq ▸ hc)
    simpa using hne
  rw [takeLine, List.takeWhile_append_of_pos hline, List.dropWhile_append_of_pos hline]
  simp

/-- Without carriage returns there is nothing to unify. -/
theorem unifyNewlines_eq_self {cs : List Char} (h : '\r' ∉ cs) : unifyNewlines cs = cs := by
  induction cs using unifyNewlines.induct with
  | case1 => rfl
  | case2 rest ih => exact absurd List.mem_cons_self h
  | case3 c rest _ ih =>
    rw [List.mem_cons, not_or] at h
    simp [unifyNewlines, Ne.symm h.1, ih h.2]

example : splitRows "a\r\nb\n\nc\n".toList = ["a", "b", "", "c"].map String.toList := by decide
example : unifyNewlines "a\r\nb\rc".toList = "a\nb\nc".toList := by decide
example : takeLine "ab\ncd".toList = ("ab\n".toList, "cd".toList) := by decide

end MiniLisp.Text
