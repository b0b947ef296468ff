import Mathlib.Data.List.TakeWhile
import MiniLisp.Proofs.Source.TokenGrammar
import MiniLisp.Text.Lines

/-!
# Lines and rows

A newline is the one thing that ends a line. A row ends at more characters than a line
(`splitRows_append`), so there are as many rows before an offset as lines and stray breaks
(`rowsBefore_eq`). Where no stray break is, the columns are the same too (`rowOpen_eq`).
-/

namespace MiniLisp

namespace Text

/-! ## Rows -/

/-- How many rows are at their end in a text. -/
def rowsBefore : List Char → Nat
  | [] => 0
  | '\r' :: '\n' :: rest => rowsBefore rest + 1
  | c :: rest => if isRowBreak c then rowsBefore rest + 1 else rowsBefore rest

/-- How many breaks of a text end a row and not a line: a carriage return before a newline is a part
of the newline. -/
def strayBreaks : List Char → Nat
  | [] => 0
  | '\r' :: '\n' :: rest => strayBreaks rest
  | c :: rest => if isRowBreak c ∧ c ≠ '\n' then strayBreaks rest + 1 else strayBreaks rest

/-- What a text leaves of the row that it ends in, last character first, when `row` is what was
before. -/
def rowOpen (row : List Char) : List Char → List Char
  | [] => row
  | '\r' :: '\n' :: rest => rowOpen [] rest
  | c :: rest => if isRowBreak c then rowOpen [] rest else rowOpen (c :: row) rest

example : strayBreaks "a\r\nb\x0c\nc".toList = 1 := by decide

theorem rowsBefore_eq (cs : List Char) : rowsBefore cs = cs.count '\n' + strayBreaks cs := by
  fun_induction rowsBefore cs with
  | case1 => rfl
  | case2 rest ih =>
    rw [ih, strayBreaks]
    simp
    omega
  | case3 c rest hcrlf hbreak ih =>
    rw [ih, strayBreaks]
    · by_cases hc : c = '\n'
      · simp [hc]
        omega
      · simp [hbreak, hc]
        omega
    · exact hcrlf
  | case4 c rest hcrlf hbreak ih =>
    have hc : c ≠ '\n' := fun h => hbreak (h ▸ by decide)
    rw [ih, strayBreaks]
    · simp [hbreak, hc]
    · exact hcrlf

/-- The rows of a text are those that are at their end in a front of it, and then those that the
rest and the open row make, unless a break lies across the two. -/
theorem splitRowsFrom_append {post : List Char} (hpost : post.head? ≠ some '\n') (row : List Char)
    (pre : List Char) : ∃ rows, rows.length = rowsBefore pre ∧
      splitRowsFrom row (pre ++ post) = rows ++ splitRowsFrom (rowOpen row pre) post := by
  -- a character begins a pair in the whole text only if it does in the front
  have hpair : ∀ {c : Char} {rest : List Char},
      (∀ tail, c = '\r' → rest = '\n' :: tail → False) →
        ∀ tail, c = '\r' → rest ++ post = '\n' :: tail → False := by
    rintro c (_ | ⟨d, rest⟩) hfront tail hc heq
    · exact hpost (by rw [← List.nil_append post, heq, List.head?_cons])
    · rw [List.cons_append, List.cons.injEq] at heq
      exact hfront rest hc (by rw [heq.1])
  fun_induction rowOpen row pre with
  | case1 row => exact ⟨[], rfl, rfl⟩
  | case2 row rest ih =>
    obtain ⟨rows, hlength, hrows⟩ := ih
    refine ⟨row.reverse :: rows, by rw [rowsBefore, List.length_cons, hlength], ?_⟩
    rw [List.cons_append, List.cons_append, splitRowsFrom, hrows, List.cons_append]
  | case3 row c rest hcrlf hbreak ih =>
    obtain ⟨rows, hlength, hrows⟩ := ih
    refine ⟨row.reverse :: rows, ?_, ?_⟩
    · rw [rowsBefore, if_pos hbreak, List.length_cons, hlength]
      exact hcrlf
    · rw [List.cons_append, splitRowsFrom, if_pos hbreak, hrows, List.cons_append]
      exact hpair hcrlf
  | case4 row c rest hcrlf hbreak ih =>
    obtain ⟨rows, hlength, hrows⟩ := ih
    refine ⟨rows, ?_, ?_⟩
    · rw [rowsBefore, if_neg hbreak, hlength]
      exact hcrlf
    · rw [List.cons_append, splitRowsFrom, if_neg hbreak, hrows]
      exact hpair hcrlf

/-- The open row goes on to the next break. -/
theorem splitRowsFrom_open {row : List Char} (hrow : row ≠ []) (cs : List Char) :
    ∃ rows, splitRowsFrom row cs =
      (row.reverse ++ cs.takeWhile fun c => !isRowBreak c) :: rows := by
  fun_induction splitRowsFrom row cs with
  | case1 row hnil => exact absurd (List.isEmpty_iff.mp hnil) hrow
  | case2 row => exact ⟨[], by simp⟩
  | case3 row rest => exact ⟨_, by rw [List.takeWhile_cons_of_neg (by decide), List.append_nil]⟩
  | case4 row c rest _ hbreak =>
    exact ⟨_, by rw [List.takeWhile_cons_of_neg (by simp [hbreak]), List.append_nil]⟩
  | case5 row c rest _ hbreak ih =>
    obtain ⟨rows, hrows⟩ := ih (List.cons_ne_nil c row)
    refine ⟨rows, ?_⟩
    rw [hrows, List.takeWhile_cons_of_pos (by simp [hbreak]), List.reverse_cons, List.append_assoc,
      List.singleton_append]

/-- The row in which a text goes on that does not begin with a break. -/
theorem splitRows_append {c : Char} (hc : isRowBreak c = false) (pre post : List Char) :
    (splitRows (pre ++ c :: post))[rowsBefore pre]? =
      some ((rowOpen [] pre).reverse ++ (c :: post).takeWhile fun c => !isRowBreak c) := by
  have hhead : (c :: post).head? ≠ some '\n' := by
    intro h
    rw [Option.some.inj h] at hc
    exact absurd hc (by decide)
  obtain ⟨rows, hlength, hrows⟩ := splitRowsFrom_append hhead [] pre
  obtain ⟨more, hmore⟩ := splitRowsFrom_open (List.cons_ne_nil c (rowOpen [] pre)) post
  have hstart : splitRowsFrom (rowOpen [] pre) (c :: post) =
      splitRowsFrom (c :: rowOpen [] pre) post := by
    rw [splitRowsFrom, if_neg (by simp [hc])]
    rintro tail rfl
    exact absurd hc (by decide)
  rw [splitRows, hrows, hstart, hmore, ← hlength, List.getElem?_append_right le_rfl, Nat.sub_self,
    List.getElem?_cons_zero, List.takeWhile_cons_of_pos (by simp [hc]), List.reverse_cons,
    List.append_assoc, List.singleton_append]

/-- The open row is an end of the text. -/
theorem rowOpen_prefix (row cs : List Char) : rowOpen row cs <+: cs.reverse ++ row := by
  fun_induction rowOpen row cs with
  | case1 row => exact List.prefix_rfl
  | case2 row rest ih =>
    rw [List.append_nil] at ih
    refine ih.trans ?_
    simp
  | case3 row c rest _ hbreak ih =>
    rw [List.append_nil] at ih
    refine ih.trans ?_
    simp
  | case4 row c rest _ hbreak ih => simpa using ih

/-- In a text without stray breaks the open row is what is behind the last newline. -/
theorem rowOpen_eq {row cs : List Char} (hrow : '\n' ∉ row) (hcs : strayBreaks cs = 0) :
    rowOpen row cs = (cs.reverse ++ row).takeWhile (· ≠ '\n') := by
  fun_induction rowOpen row cs with
  | case1 row =>
    refine (List.takeWhile_eq_self_iff.mpr fun c hc => ?_).symm
    simpa using fun heq : c = '\n' => hrow (heq ▸ hc)
  | case2 row rest ih =>
    rw [strayBreaks] at hcs
    have hline : Halts (· ≠ '\n') ('\n' :: '\r' :: row) := halts_cons (by decide) _
    rw [ih List.not_mem_nil hcs, List.append_nil, ← takeWhile_append_of_halts hline]
    simp
  | case3 row c rest hcrlf hbreak ih =>
    rw [strayBreaks] at hcs
    · have hc : c = '\n' := by
        by_contra hne
        rw [if_pos ⟨hbreak, hne⟩] at hcs
        cases hcs
      subst hc
      rw [if_neg (by simp)] at hcs
      have hline : Halts (· ≠ '\n') ('\n' :: row) := halts_cons (by decide) _
      rw [ih List.not_mem_nil hcs, List.append_nil, ← takeWhile_append_of_halts hline]
      simp
    · exact hcrlf
  | case4 row c rest hcrlf hbreak ih =>
    have hc : c ≠ '\n' := fun h => hbreak (h ▸ by decide)
    rw [strayBreaks, if_neg (fun h => hbreak h.1)] at hcs
    · rw [ih (by simp [hrow, hc.symm]) hcs]
      simp
    · exact hcrlf

end Text

end MiniLisp
