/-!
# Slices between signed offsets

An offset below zero counts from the end, and an offset outside the list is moved to its
nearer end.
-/

namespace MiniLisp.Text

/-- The index in `0 … size` that a signed offset stands for. -/
def clampOffset (size : Nat) (offset : Int) : Nat :=
  if offset < 0 then (offset + size).toNat else min offset.toNat size

/-- The items from `start` up to `stop`; none when `stop` comes first. -/
def slice {α : Type} (xs : List α) (start stop : Int) : List α :=
  (xs.take (clampOffset xs.length stop)).drop (clampOffset xs.length start)

/-- The item at a signed offset, if there is one. -/
def pick? {α : Type} (xs : List α) (offset : Int) : Option α :=
  if offset < 0 then
    if 0 ≤ offset + xs.length then xs[(offset + xs.length).toNat]? else none
  else xs[offset.toNat]?

theorem slice_natCast {α : Type} (xs : List α) (i j : Nat) (h : j ≤ xs.length) :
    slice xs i j = (xs.take j).drop i := by
  have hi : ¬ (i : Int) < 0 := by omega
  have hj : ¬ (j : Int) < 0 := by omega
  simp only [slice, clampOffset, hi, hj, if_false, Int.toNat_natCast, Nat.min_eq_left h]
  by_cases hle : i ≤ xs.length
  · rw [Nat.min_eq_left hle]
  · have hlen : (xs.take j).length ≤ xs.length := by rw [List.length_take]; omega
    rw [Nat.min_eq_right (by omega), List.drop_eq_nil_of_le hlen,
      List.drop_eq_nil_of_le (by omega)]

example : slice [1, 2, 3, 4, 5] (-2) 100 = [4, 5] := by decide
example : slice [1, 2, 3, 4, 5] (-1) 3 = [] := by decide
example : pick? [1, 2, 3] (-3) = some 1 := by decide

end MiniLisp.Text
