import Mathlib.Data.List.Induction
import Mathlib.Data.List.TakeWhile
import MiniLisp.Document.LineMap
import MiniLisp.Text.Slice

/-!
# Offsets and positions

The position of an offset counts newlines, and a newline is the one thing that ends a line
(`positionOf_append`). The line of an offset is the last one that begins there or before, and the
column leads back from that line's start to the offset (`exists_liesOn`). So the positions of a text
are in the order of its offsets, and no two offsets share one (`positionOf_inverts`).
-/

namespace MiniLisp.Document

/-- The first position is on an earlier line, or on the same line and further left. -/
def Position.Before (p q : Position) : Prop :=
  p.line < q.line ∨ p.line = q.line ∧ p.column < q.column

theorem Position.Before.irrefl (p : Position) : ¬ p.Before p := by
  unfold Before
  omega

theorem Position.Before.asymm {p q : Position} (h : p.Before q) : ¬ q.Before p := by
  unfold Before at h ⊢
  omega

/-! ## Where lines begin -/

theorem startsFrom_append (offset : Nat) (pre post : List Char) :
    startsFrom offset (pre ++ post) =
      startsFrom offset pre ++ startsFrom (offset + pre.length) post := by
  induction pre generalizing offset with
  | nil => rfl
  | cons c pre ih =>
    have hoffset : offset + (c :: pre).length = offset + 1 + pre.length := by
      rw [List.length_cons]
      omega
    rw [List.cons_append, startsFrom, startsFrom, ih, hoffset]
    split <;> rfl

theorem length_startsFrom (offset : Nat) (cs : List Char) :
    (startsFrom offset cs).length = cs.count '\n' := by
  induction cs generalizing offset with
  | nil => rfl
  | cons c cs ih =>
    rw [startsFrom]
    by_cases hc : c = '\n' <;> simp [hc, ih]

/-- Lines begin behind the offset that the text begins at, and not behind its end. -/
theorem mem_startsFrom {offset start : Nat} {cs : List Char} (h : start ∈ startsFrom offset cs) :
    offset < start ∧ start ≤ offset + cs.length := by
  induction cs generalizing offset with
  | nil => cases h
  | cons c cs ih =>
    rw [List.length_cons]
    rw [startsFrom] at h
    split at h
    · rcases List.mem_cons.mp h with rfl | h
      · omega
      · have := ih h
        omega
    · have := ih h
      omega

theorem lineStarts_append (pre post : List Char) :
    lineStarts (pre ++ post) = lineStarts pre ++ startsFrom pre.length post := by
  rw [lineStarts, startsFrom_append, Nat.zero_add, ← List.cons_append]
  rfl

theorem length_lineStarts (cs : List Char) : (lineStarts cs).length = cs.count '\n' + 1 := by
  rw [lineStarts, List.length_cons, length_startsFrom]

theorem le_of_mem_lineStarts {start : Nat} {cs : List Char} (h : start ∈ lineStarts cs) :
    start ≤ cs.length := by
  rcases List.mem_cons.mp h with rfl | h
  · exact Nat.zero_le _
  · have := mem_startsFrom h
    omega

/-- The last line of a text begins behind its last newline. -/
theorem getLast?_lineStarts (cs : List Char) :
    (lineStarts cs).getLast? = some (cs.length - (cs.reverse.takeWhile (· ≠ '\n')).length) := by
  induction cs using List.reverseRecOn with
  | nil => rfl
  | append_singleton cs c ih =>
    have hstarts : lineStarts (cs ++ [c]) =
        lineStarts cs ++ if c = '\n' then [cs.length + 1] else [] := by
      rw [lineStarts_append]
      rfl
    rw [hstarts, List.reverse_append, List.reverse_singleton, List.singleton_append]
    by_cases hc : c = '\n'
    · simp [hc]
    · simp [hc, ih]

/-- The lines that begin in the front of a text or at its end are as many as the front has. -/
theorem start_le_iff {pre post : List Char} {i start : Nat}
    (h : (lineStarts (pre ++ post))[i]? = some start) :
    start ≤ pre.length ↔ i ≤ pre.count '\n' := by
  have hlength := length_lineStarts pre
  rw [lineStarts_append] at h
  constructor
  · intro hstart
    by_contra hi
    rw [List.getElem?_append_right (by omega)] at h
    have := mem_startsFrom (List.mem_of_getElem? h)
    omega
  · intro hi
    rw [List.getElem?_append_left (by omega)] at h
    exact le_of_mem_lineStarts (List.mem_of_getElem? h)

/-- The line on which the front of a text ends begins behind the front's last newline. -/
theorem lineStarts_getElem? (pre post : List Char) :
    (lineStarts (pre ++ post))[pre.count '\n']? =
      some (pre.length - (pre.reverse.takeWhile (· ≠ '\n')).length) := by
  have hlength := length_lineStarts pre
  rw [← getLast?_lineStarts, List.getLast?_eq_getElem?, hlength, lineStarts_append,
    List.getElem?_append_left (by omega), Nat.add_sub_cancel]

/-! ## The position of an offset -/

/-- The position of an offset is as many lines down as there are newlines before it, and as many
columns to the right as characters are between it and the last of them. -/
theorem positionOf_append (pre post : List Char) :
    positionOf (pre ++ post) pre.length =
      ⟨pre.count '\n', (pre.reverse.takeWhile (· ≠ '\n')).length⟩ := by
  have hbegun : (lineStarts (pre ++ post)).countP
      (fun (start : Nat) => decide ((start : Int) ≤ pre.length)) = pre.count '\n' + 1 := by
    rw [lineStarts_append, List.countP_append, List.countP_eq_length.mpr,
      List.countP_eq_zero.mpr, length_lineStarts]
    · intro start hstart
      have := mem_startsFrom hstart
      simp
      omega
    · intro start hstart
      simpa using le_of_mem_lineStarts hstart
  have hle := (List.takeWhile_sublist (· ≠ '\n') (l := pre.reverse)).length_le
  rw [List.length_reverse] at hle
  unfold positionOf positionIn
  simp only [hbegun, if_neg (Nat.succ_ne_zero _), Nat.add_sub_cancel, List.getD_eq_getElem?_getD,
    lineStarts_getElem?, Option.getD_some, Position.mk.injEq]
  omega

theorem positionOf_eq {cs : List Char} {offset : Nat} (h : offset ≤ cs.length) :
    positionOf cs offset = ⟨(cs.take offset).count '\n',
      ((cs.take offset).reverse.takeWhile (· ≠ '\n')).length⟩ := by
  have happend := positionOf_append (cs.take offset) (cs.drop offset)
  rwa [List.take_append_drop, List.length_take_of_le h] at happend

/-- An offset of a text has the same position whatever follows the text. -/
theorem positionOf_of_prefix {cs ds : List Char} (h : cs <+: ds) {offset : Nat}
    (hoffset : offset ≤ cs.length) : positionOf ds offset = positionOf cs offset := by
  obtain ⟨rest, rfl⟩ := h
  have hle : offset ≤ (cs ++ rest).length := by
    rw [List.length_append]
    omega
  rw [positionOf_eq hle, positionOf_eq hoffset, List.take_append_of_le_length hoffset]

/-- The offset is on a line, which begins at `start`, and so many columns behind its start. -/
structure LiesOn (cs : List Char) (offset line start column : Nat) : Prop where
  begins : (lineStarts cs)[line]? = some start
  leads_back : start + column = offset
  newlines : line = (cs.take offset).count '\n'
  unbroken : '\n' ∉ Text.slice cs start offset
  /-- The line is the last of those that begin at the offset or before. -/
  last : ∀ i s, (lineStarts cs)[i]? = some s → (s ≤ offset ↔ i ≤ line)

/-- The end of a text that has no newline in it. -/
theorem drop_lastLine (cs : List Char) :
    cs.drop (cs.length - (cs.reverse.takeWhile (· ≠ '\n')).length) =
      (cs.reverse.takeWhile (· ≠ '\n')).reverse := by
  have hsuffix : (cs.reverse.takeWhile (· ≠ '\n')).reverse <:+ cs := by
    rw [← List.reverse_prefix, List.reverse_reverse]
    exact List.takeWhile_prefix _
  rw [List.suffix_iff_eq_drop.mp hsuffix, List.length_reverse]

theorem exists_liesOn {cs : List Char} {offset : Nat} (h : offset ≤ cs.length) :
    ∃ line start column : Nat, positionOf cs offset = ⟨line, column⟩ ∧
      LiesOn cs offset line start column := by
  have hlength : (cs.take offset).length = offset := List.length_take_of_le h
  have hget := lineStarts_getElem? (cs.take offset) (cs.drop offset)
  rw [List.take_append_drop, hlength] at hget
  have hle := (List.takeWhile_sublist (· ≠ '\n') (l := (cs.take offset).reverse)).length_le
  rw [List.length_reverse, hlength] at hle
  refine ⟨_, _, _, positionOf_eq h, hget, by omega, rfl, ?_, ?_⟩
  · have hdrop := drop_lastLine (cs.take offset)
    rw [hlength] at hdrop
    rw [Text.slice_natCast _ _ _ h, hdrop, List.mem_reverse]
    intro hmem
    simpa using List.mem_takeWhile_imp hmem
  · intro i s hs
    rw [← List.take_append_drop offset cs] at hs
    have hstart := start_le_iff hs
    rwa [hlength] at hstart

section Order

variable {cs : List Char} {offset offset' : Nat}

/-- A later offset has a later position: on a later line, or else further right. -/
theorem positionOf_before (hlt : offset < offset') (h : offset' ≤ cs.length) :
    (positionOf cs offset).Before (positionOf cs offset') := by
  have hle : offset ≤ cs.length := by omega
  obtain ⟨line, start, column, hposition, hlies⟩ := exists_liesOn hle
  obtain ⟨line', start', column', hposition', hlies'⟩ := exists_liesOn h
  have hback := hlies.leads_back
  have hback' := hlies'.leads_back
  have hline : line ≤ line' := (hlies'.last line start hlies.begins).mp (by omega)
  rw [hposition, hposition']
  unfold Position.Before
  by_cases hsame : line = line'
  · subst hsame
    have hstart : start = start' := Option.some.inj (hlies.begins.symm.trans hlies'.begins)
    dsimp only
    omega
  · dsimp only
    omega

theorem positionOf_before_iff (h : offset ≤ cs.length) (h' : offset' ≤ cs.length) :
    (positionOf cs offset).Before (positionOf cs offset') ↔ offset < offset' := by
  constructor
  · intro hbefore
    by_contra hnot
    rcases Nat.lt_or_eq_of_le (Nat.le_of_not_lt hnot) with hlt | rfl
    · exact hbefore.asymm (positionOf_before hlt h)
    · exact Position.Before.irrefl _ hbefore
  · intro hlt
    exact positionOf_before hlt h'

theorem positionOf_inj (h : offset ≤ cs.length) (h' : offset' ≤ cs.length) :
    positionOf cs offset = positionOf cs offset' ↔ offset = offset' := by
  constructor
  · intro heq
    have hbefore := positionOf_before_iff h h'
    have hbehind := positionOf_before_iff h' h
    rw [heq] at hbefore hbehind
    have hirrefl := Position.Before.irrefl (positionOf cs offset')
    have hnot : ¬ offset < offset' := fun hlt => hirrefl (hbefore.mpr hlt)
    have hnot' : ¬ offset' < offset := fun hlt => hirrefl (hbehind.mpr hlt)
    omega
  · intro heq
    rw [heq]

end Order

/-- Positions undo offsets. The position of an offset of a text is on the last line that begins
there or before, which has as many newlines before it as its number says; the column leads from the
line's start to the offset, with no newline between. Positions are in the order of the offsets, and
different ones for different offsets. -/
theorem positionOf_inverts {cs : List Char} {offset : Nat} (h : offset ≤ cs.length) :
    (∃ line start column : Nat, positionOf cs offset = ⟨line, column⟩ ∧
      LiesOn cs offset line start column) ∧
    ∀ offset' : Nat, offset' ≤ cs.length →
      (positionOf cs offset = positionOf cs offset' ↔ offset = offset') ∧
      ((positionOf cs offset).Before (positionOf cs offset') ↔ offset < offset') :=
  ⟨exists_liesOn h, fun _ h' => ⟨positionOf_inj h h', positionOf_before_iff h h'⟩⟩

/-- The newline that is all of the second line, and the first character of the third. -/
theorem positionOf_inverts_empty_line : ∃ (cs : List Char) (offset offset' : Nat),
    cs = "ab\n\ncd".toList ∧ offset = 3 ∧ offset' = 4 ∧ offset ≤ cs.length ∧
    offset' ≤ cs.length ∧ positionOf cs offset = ⟨1, 0⟩ ∧ positionOf cs offset' = ⟨2, 0⟩ ∧
    (∃ line start column : Nat, positionOf cs offset = ⟨line, column⟩ ∧
      LiesOn cs offset line start column) ∧
    (positionOf cs offset = positionOf cs offset' ↔ offset = offset') ∧
    ((positionOf cs offset).Before (positionOf cs offset') ↔ offset < offset') := by
  have h : 3 ≤ "ab\n\ncd".toList.length := by decide
  have h' : 4 ≤ "ab\n\ncd".toList.length := by decide
  obtain ⟨hlies, horder⟩ := positionOf_inverts h
  exact ⟨_, 3, 4, rfl, rfl, rfl, h, h', by decide, by decide, hlies, horder 4 h'⟩

end MiniLisp.Document
