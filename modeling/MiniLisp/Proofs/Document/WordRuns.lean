import MiniLisp.Document.Word
import MiniLisp.Proofs.Source.TokenGrammar

/-!
# Runs of word characters

Around every place of a row there is one run of word characters that cannot be extended
(`exists_wordRun`, `WordRun.unique`). From the place the row is searched backwards and forwards, and
the searches end where the run does, so the word at the place is the run, or none if the run is
empty (`WordRun.wordInRow_eq`). `wordAt_run` says so of a line and a column of a text: every column
in a run or at an edge of it gives the same word.
-/

namespace MiniLisp

namespace Document

open MiniLisp.Text

/-- Between the two offsets of a row are word characters only, and there is none on either side. -/
structure WordRun (row : List Char) (start stop : Nat) : Prop where
  start_le : start ≤ stop
  stop_le : stop ≤ row.length
  word : ∀ c ∈ (row.take stop).drop start, isWordChar c = true
  before : Halts isWordChar (row.take start).reverse
  behind : Halts isWordChar (row.drop stop)

variable {row : List Char} {start stop place : Nat}

namespace WordRun

/-- Backwards from a place the run goes on to its start. -/
theorem takeWhile_before (h : WordRun row start stop) (hstart : start ≤ place)
    (hstop : place ≤ stop) :
    (row.take place).reverse.takeWhile isWordChar = ((row.take place).drop start).reverse := by
  have hsplit := List.take_append_drop start (row.take place)
  rw [List.take_take, Nat.min_eq_left hstart] at hsplit
  have hword : ∀ c ∈ ((row.take place).drop start).reverse, isWordChar c = true := by
    intro c hc
    rw [List.mem_reverse, List.drop_take] at hc
    have hle : place - start ≤ stop - start := by omega
    refine h.word c ?_
    rw [List.drop_take]
    exact (List.take_prefix_take_left hle).subset hc
  have hrun := takeWhile_append_halts hword h.before
  rwa [← List.reverse_append, hsplit] at hrun

/-- Forwards it goes on to its end. -/
theorem takeWhile_behind (h : WordRun row start stop) (hstart : start ≤ place)
    (hstop : place ≤ stop) :
    (row.drop place).takeWhile isWordChar = (row.take stop).drop place := by
  have hsplit := List.take_append_drop (stop - place) (row.drop place)
  rw [← List.drop_take, List.drop_drop, show place + (stop - place) = stop by omega] at hsplit
  have hword : ∀ c ∈ (row.take stop).drop place, isWordChar c = true := by
    intro c hc
    rw [show place = start + (place - start) by omega, ← List.drop_drop] at hc
    exact h.word c (List.mem_of_mem_drop hc)
  have hrun := takeWhile_append_halts hword h.behind
  rwa [hsplit] at hrun

/-- Where a run starts and stops is known from any place in it. -/
theorem unique {start' stop' : Nat} (h : WordRun row start stop) (h' : WordRun row start' stop')
    (hplace : start ≤ place ∧ place ≤ stop) (hplace' : start' ≤ place ∧ place ≤ stop') :
    start = start' ∧ stop = stop' := by
  -- the searches from the place do not know of the run, and their lengths give both its edges
  have hbefore := congrArg List.length (h.takeWhile_before hplace.1 hplace.2)
  have hbehind := congrArg List.length (h.takeWhile_behind hplace.1 hplace.2)
  have hle := h.stop_le
  have hle' := h'.stop_le
  rw [h'.takeWhile_before hplace'.1 hplace'.2] at hbefore
  rw [h'.takeWhile_behind hplace'.1 hplace'.2] at hbehind
  simp only [List.length_reverse, List.length_drop, List.length_take] at hbefore hbehind
  omega

/-- The word at a place in a run, or at an edge of it, is the run. -/
theorem wordInRow_eq (h : WordRun row start stop) (hstart : start ≤ place) (hstop : place ≤ stop) :
    wordInRow row place =
      .ok (if start = stop then none else some ((row.take stop).drop start)) := by
  have hle := h.stop_le
  have hbegin : wordStart row place = start := by
    rw [wordStart, Int.toNat_natCast, h.takeWhile_before hstart hstop, List.length_reverse,
      List.length_drop, List.length_take]
    omega
  have hend : (place : Int) + ((following row place).takeWhile isWordChar).length = stop := by
    rw [following, if_neg (by omega), Int.toNat_natCast, h.takeWhile_behind hstart hstop,
      List.length_drop, List.length_take]
    omega
  have hempty : ((row.take stop).drop start).isEmpty = true ↔ start = stop := by
    have horder := h.start_le
    rw [List.isEmpty_iff_length_eq_zero, List.length_drop, List.length_take]
    omega
  unfold wordInRow
  rw [if_neg (by omega)]
  simp only [hbegin, hend, slice_natCast row start stop hle, hempty]

end WordRun

/-- A word between characters that are in no word is a run. -/
theorem wordRun_append {before word behind : List Char} (hword : ∀ c ∈ word, isWordChar c = true)
    (hbefore : Halts isWordChar before.reverse) (hbehind : Halts isWordChar behind) :
    WordRun (before ++ (word ++ behind)) before.length (before.length + word.length) := by
  have hfront : (before ++ (word ++ behind)).take (before.length + word.length) =
      before ++ word := by
    rw [← List.append_assoc, ← List.length_append, List.take_left]
  refine ⟨Nat.le_add_right _ _, by simp, ?_, ?_, ?_⟩
  · rwa [hfront, List.drop_left]
  · rwa [List.take_left]
  · rwa [← List.drop_drop, List.drop_left, List.drop_left]

/-- Every place of a row is in a run, which is empty if no word character is next to it. -/
theorem exists_wordRun (hplace : place ≤ row.length) :
    ∃ start stop, WordRun row start stop ∧ start ≤ place ∧ place ≤ stop := by
  obtain ⟨left, hleft⟩ : ∃ left, left = (row.take place).reverse.takeWhile isWordChar := ⟨_, rfl⟩
  obtain ⟨before, hbefore⟩ : ∃ before, before = (row.take place).reverse.dropWhile isWordChar :=
    ⟨_, rfl⟩
  have hfront : before.reverse ++ left.reverse = row.take place := by
    rw [← List.reverse_append, hleft, hbefore, List.takeWhile_append_dropWhile,
      List.reverse_reverse]
  -- what is found backwards from the place, and behind it what is found forwards
  have hword : ∀ c ∈ left.reverse ++ (row.drop place).takeWhile isWordChar,
      isWordChar c = true := by
    intro c hc
    rcases List.mem_append.mp hc with hc | hc
    · rw [List.mem_reverse, hleft] at hc
      exact List.mem_takeWhile_imp hc
    · exact List.mem_takeWhile_imp hc
  have hhalts : Halts isWordChar before.reverse.reverse := by
    rw [List.reverse_reverse, hbefore]
    exact halts_dropWhile _ _
  have hrun := wordRun_append hword hhalts (halts_dropWhile isWordChar (row.drop place))
  rw [List.append_assoc left.reverse, List.takeWhile_append_dropWhile, ← List.append_assoc, hfront,
    List.take_append_drop] at hrun
  have hlength := congrArg List.length hfront
  rw [List.length_append, List.length_take, Nat.min_eq_left hplace] at hlength
  refine ⟨_, _, hrun, by omega, ?_⟩
  rw [List.length_append]
  omega

/-- With offsets that are not negative, rows and columns are counted from the front. -/
theorem wordAt_natCast {cs : List Char} {line : Nat} (h : (splitRows cs)[line]? = some row)
    (column : Nat) : wordAt cs line column = wordInRow row (min column row.length : Nat) := by
  have hlt := (List.getElem?_eq_some_iff.mp h).1
  unfold wordAt
  simp only [if_neg (show ¬ ((splitRows cs).length : Int) ≤ line by omega)]
  rw [pick?, if_neg (by omega), Int.toNat_natCast, h]
  simp only
  rw [show ((min column row.length : Nat) : Int) = min (column : Int) row.length by omega]

/-- The word at a line and a column. Behind the last row there is none. In a row, a column behind
its end counts as the end; there is one run of word characters around the column that cannot be
extended, the word is that run, and none if it is empty, and every column in the run or at one of
its edges has the same word. -/
theorem wordAt_run (cs : List Char) (line column : Nat) :
    ((splitRows cs).length ≤ line → wordAt cs line column = .ok none) ∧
    ∀ row, (splitRows cs)[line]? = some row → ∃ start stop, WordRun row start stop ∧
      (start ≤ min column row.length ∧ min column row.length ≤ stop) ∧
      (∀ start' stop', WordRun row start' stop' →
        start' ≤ min column row.length ∧ min column row.length ≤ stop' →
          start = start' ∧ stop = stop') ∧
      wordAt cs line column =
        .ok (if start = stop then none else some ((row.take stop).drop start)) ∧
      ∀ column' : Nat, start ≤ min column' row.length ∧ min column' row.length ≤ stop →
        wordAt cs line column' = wordAt cs line column := by
  constructor
  · intro hline
    unfold wordAt
    simp only [if_pos (show ((splitRows cs).length : Int) ≤ line by omega)]
  · intro row hrow
    obtain ⟨start, stop, hrun, hplace⟩ := exists_wordRun (Nat.min_le_right column row.length)
    have hword : ∀ column' : Nat, start ≤ min column' row.length ∧ min column' row.length ≤ stop →
        wordAt cs line column' =
          .ok (if start = stop then none else some ((row.take stop).drop start)) := by
      intro column' hplace'
      rw [wordAt_natCast hrow, hrun.wordInRow_eq hplace'.1 hplace'.2]
    refine ⟨start, stop, hrun, hplace, ?_, hword column hplace, ?_⟩
    · intro start' stop' hrun' hplace'
      exact hrun.unique hrun' hplace hplace'
    · intro column' hplace'
      rw [hword column' hplace', hword column hplace]

/-- A word with accents in the third row, behind a line separator, asked for at its right edge and
at its left one; and a column between two operators, where the run is empty. -/
theorem wordAt_run_accents : ∃ cs row, cs = "(a)\r\n\u2028 été_1+=b".toList ∧
    row = [' ', 'é', 't', 'é', '_', '1', '+', '=', 'b'] ∧ (splitRows cs)[2]? = some row ∧
    (splitRows cs).length = 3 ∧ wordAt cs 3 0 = .ok none ∧
    wordAt cs 2 6 = .ok (some ['é', 't', 'é', '_', '1']) ∧ wordAt cs 2 1 = wordAt cs 2 6 ∧
    wordAt cs 2 7 = .ok none := by
  have hrow : (splitRows "(a)\r\n\u2028 été_1+=b".toList)[2]? =
      some [' ', 'é', 't', 'é', '_', '1', '+', '=', 'b'] := by decide
  have hrows : (splitRows "(a)\r\n\u2028 été_1+=b".toList).length = 3 := by decide
  have hword : WordRun [' ', 'é', 't', 'é', '_', '1', '+', '=', 'b'] 1 6 :=
    @wordRun_append [' '] ['é', 't', 'é', '_', '1'] ['+', '=', 'b']
      (List.all_eq_true.mp (by decide +kernel)) (halts_cons (by decide +kernel) _)
      (halts_cons (by decide +kernel) _)
  have hempty : WordRun [' ', 'é', 't', 'é', '_', '1', '+', '=', 'b'] 7 7 :=
    @wordRun_append [' ', 'é', 't', 'é', '_', '1', '+'] [] ['=', 'b']
      (List.forall_mem_nil _) (halts_cons (by decide +kernel) _) (halts_cons (by decide +kernel) _)
  obtain ⟨start, stop, _, _, hunique, hat, hedge⟩ :=
    (wordAt_run "(a)\r\n\u2028 été_1+=b".toList 2 6).2 _ hrow
  obtain ⟨rfl, rfl⟩ := hunique 1 6 hword (by decide)
  obtain ⟨start, stop, _, _, hunique, hnone, _⟩ :=
    (wordAt_run "(a)\r\n\u2028 été_1+=b".toList 2 7).2 _ hrow
  obtain ⟨rfl, rfl⟩ := hunique 7 7 hempty (by decide)
  exact ⟨_, _, rfl, rfl, hrow, hrows, (wordAt_run _ 3 0).1 (by rw [hrows]), hat,
    hedge 1 (by decide), hnone⟩

end Document

end MiniLisp
