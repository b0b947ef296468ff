import MiniLisp.Document.Index
import MiniLisp.Proofs.Document.Positions
import MiniLisp.Proofs.Source.Placement

/-!
# The range of a problem

Reading blames a place of the text or none at all. The places of a text's tokens lie in the text,
and so does the place at which cutting stops short (`Cursor.tokens_inside`); a parser blames one of
these, since rows that are alike in their places are read with errors that are alike in theirs
(`parse_error_inside`). So the problem in the index of a text is between two offsets of the text,
and marks a character at least unless it is at the end (`index_problem_range`).
-/

namespace MiniLisp

/-- The span lies in a text of so many characters. -/
def Span.Inside (size : Nat) (s : Span) : Prop := 0 ≤ s.start ∧ s.stop ≤ size

theorem Span.covering_inside {start length size : Nat} (h : start + length ≤ size) :
    (covering start length).Inside size := by
  unfold Inside
  rw [covering_start, covering_stop]
  omega

/-- A place in a text begins at an offset of the text. -/
theorem Span.Inside.exists_start {size : Nat} {s : Span} (h : s.Inside size) :
    ∃ start : Nat, s.start = start ∧ start ≤ size := by
  obtain ⟨hstart, hstop⟩ := h
  have horder := s.start_le_stop
  exact ⟨s.start.toNat, by omega, by omega⟩

/-- A token's quotes are around its span, so the span lies in the text if they do. -/
theorem Token.span_inside {t : Token} {size : Nat} (h : t.extent.Inside size) :
    t.span.Inside size := by
  unfold Span.Inside extent at h
  unfold Span.Inside
  split at h
  · dsimp only at h
    omega
  · exact h

/-! ## Where errors are -/

section Places

variable {cs : List Char}

theorem Covering.tokens_inside {ts : List Token} {stop : Nat} (h : Covering cs ts stop) :
    List.Forall₂ (Token.Alike fun s _ => s.Inside cs.length) ts ts := by
  rw [List.forall₂_same]
  intro t ht
  obtain ⟨hstart, hstop, _⟩ := h.inside t ht
  exact ⟨rfl, rfl, Token.span_inside ⟨hstart, hstop⟩⟩

theorem length_of_drop_eq_cons {p : Nat} {c : Char} {tail : List Char}
    (h : cs.drop p = c :: tail) : cs.length = p + (tail.length + 1) := by
  have hlength := congrArg List.length h
  rw [List.length_drop, List.length_cons] at hlength
  omega

theorem Cursor.misfit_inside {p : Nat} {c : Char} {tail : List Char} (h : cs.drop p = c :: tail) :
    SyntaxError.Alike (fun s _ => s.Inside cs.length) (misfit p c tail.length)
      (misfit p c tail.length) := by
  have hlength := length_of_drop_eq_cons h
  refine ⟨rfl, ?_⟩
  unfold misfit
  split
  · exact .some (Span.covering_inside (by omega))
  · exact .some (Span.covering_inside (by omega))

/-- The places of a text's tokens lie in the text, and so does that of the error at which cutting
them stops short. -/
theorem Cursor.tokens_inside (cs : List Char) :
    RowsAlike (fun s _ => s.Inside cs.length) (ofText cs).tokens (ofText cs).tokens := by
  rcases tokens_tiling cs with ⟨hnone, front, hrow, htiling⟩ |
    ⟨p, c, tail, hsome, hdrop, _, htiling⟩
  · refine ⟨?_, ?_⟩
    · rw [hrow]
      exact htiling.covering_atEnd.tokens_inside
    · rw [hnone]
      exact .none
  · have hle : p ≤ cs.length := by
      rw [length_of_drop_eq_cons hdrop]
      omega
    refine ⟨(htiling.covering hle).tokens_inside, ?_⟩
    rw [hsome]
    exact .some (misfit_inside hdrop)

/-- The place that an error of reading blames lies in the text. -/
theorem parse_error_inside [Host] {e : SyntaxError} (h : parse cs = .error (.malformed e))
    {s : Span} (hs : e.span = some s) : s.Inside cs.length := by
  have halike := (readLevels_alike (Host.levels cs) (Cursor.tokens_inside cs)).ofText
  rw [← parse_eq_readLevels, h] at halike
  cases halike with
  | error halike =>
    cases halike with
    | malformed halike =>
      have hplace := halike.place
      rw [hs] at hplace
      cases hplace with
      | some hinside => exact hinside

end Places

namespace Document

/-- An error that has its place in the text is marked from the place's start on, up to its end, or
over one character if there is one. -/
theorem problemOf_range {cs : List Char} {e : SyntaxError}
    (h : ∀ s, e.span = some s → s.Inside cs.length) :
    ∃ start stop : Nat, e.span.elim (cs.length : Int) Span.start = start ∧ start ≤ stop ∧
      stop ≤ cs.length ∧ (start < cs.length → start < stop) ∧
      problemOf cs e = ⟨e.message, positionOf cs start, positionOf cs stop⟩ := by
  obtain ⟨span, hspan⟩ : ∃ span, span = e.span.getD (Span.covering cs.length 0) := ⟨_, rfl⟩
  have hplace : span.Inside cs.length ∧ e.span.elim (cs.length : Int) Span.start = span.start := by
    cases hplace : e.span with
    | none =>
      rw [hspan, hplace]
      exact ⟨Span.covering_inside le_rfl, rfl⟩
    | some s =>
      rw [hspan, hplace]
      exact ⟨h s hplace, rfl⟩
  obtain ⟨hinside, hstart⟩ := hplace
  obtain ⟨start, hstart', hle⟩ := hinside.exists_start
  have horder := span.start_le_stop
  obtain ⟨stop, hstop⟩ :
      ∃ stop : Nat, min (max span.stop (span.start + 1)) cs.length = (stop : Int) :=
    ⟨(min (max span.stop (span.start + 1)) cs.length).toNat, by omega⟩
  refine ⟨start, stop, by rw [hstart, hstart'], by omega, by omega, by omega, ?_⟩
  unfold problemOf
  rw [← hspan]
  dsimp only
  rw [hstop, hstart', positionOf, positionOf]

/-- The problem in the index of a text is the error with which the text is not read, between two
offsets of the text: from where the error is, or the end of the text if it has no place, up to an
offset that is not before it. The two positions are the same just if the first is at the end of the
text, so a problem anywhere else marks a character at least. -/
theorem index_problem_range [Host] {cs : List Char} {idx : Index} {problem : Problem}
    (h : index cs = .ok idx) (hproblem : idx.problem = some problem) :
    ∃ (e : SyntaxError) (start stop : Nat), parse cs = .error (.malformed e) ∧
      problem = ⟨e.message, positionOf cs start, positionOf cs stop⟩ ∧
      e.span.elim (cs.length : Int) Span.start = start ∧ start ≤ stop ∧ stop ≤ cs.length ∧
      ¬ problem.stop.Before problem.start ∧
      (problem.start = problem.stop ↔ start = cs.length) ∧ (start ≠ cs.length → start < stop) := by
  unfold index at h
  split at h
  · cases h
    cases hproblem
  · rename_i e hparse
    cases h
    cases hproblem
    obtain ⟨start, stop, hplace, hle, hstop, hmark, heq⟩ :=
      problemOf_range fun s hs => parse_error_inside hparse hs
    have hstart : start ≤ cs.length := by omega
    refine ⟨e, start, stop, hparse, heq, hplace, hle, hstop, ?_, ?_, by omega⟩
    · rw [heq, positionOf_before_iff hstop hstart]
      omega
    · rw [heq, positionOf_inj hstart hstop]
      omega
  · cases h

/-- A character that begins no token, on the second line. -/
theorem index_problem_range_unexpected : ∃ cs idx problem,
    cs = "(set a 1)\n  # oops".toList ∧ index cs = .ok idx ∧ idx.problem = some problem ∧
    problem.start = ⟨1, 2⟩ ∧ problem.stop = ⟨1, 3⟩ ∧
    ∃ (e : SyntaxError) (start stop : Nat), parse cs = .error (.malformed e) ∧
      problem = ⟨e.message, positionOf cs start, positionOf cs stop⟩ ∧
      e.span.elim (cs.length : Int) Span.start = start ∧ start ≤ stop ∧ stop ≤ cs.length ∧
      ¬ problem.stop.Before problem.start ∧
      (problem.start = problem.stop ↔ start = cs.length) ∧
      (start ≠ cs.length → start < stop) := by
  have hparse : parse "(set a 1)\n  # oops".toList =
      .error (.malformed ⟨.unexpectedCharacter '#', some (Span.covering 12 1)⟩) := by cbv
  obtain ⟨idx, hidx, hproblem⟩ : ∃ idx, index "(set a 1)\n  # oops".toList = .ok idx ∧
      idx.problem = some (problemOf "(set a 1)\n  # oops".toList
        ⟨.unexpectedCharacter '#', some (Span.covering 12 1)⟩) := by
    unfold index
    rw [hparse]
    exact ⟨_, rfl, rfl⟩
  exact ⟨_, idx, _, rfl, hidx, hproblem, by decide, by decide, index_problem_range hidx hproblem⟩

end Document

end MiniLisp
