import MiniLisp.Proofs.Decimal.Rounding

/-!
# The shortest decimal rounds to its float

The comparisons of `Binary` are made with integers in a unit of their own. `decimal_eq` and
`quarters_eq` say which numbers these are, and `roundsHere_iff` that the test for a decimal is
the one for nearness. Seventeen digits make a grid finer than the reach of any float, so the
search for a decimal ends with one that rounds to the float (`shortest_near`).
-/

namespace MiniLisp.Decimal.Binary

/-! ## The unit of the comparisons -/

/-- The unit in which `decimal` and `quarters` count for the same power of ten. -/
def unit (b : Binary) (p : Int) : ℚ := 2 ^ (2 - b.e).toNat * 10 ^ (-p).toNat

theorem unit_pos (b : Binary) (p : Int) : 0 < b.unit p := by
  unfold unit
  positivity

/-- A power is one with a negative exponent, taken from one without. -/
theorem pow_toNat_eq {a : ℚ} (ha : a ≠ 0) (k : Int) : a ^ k.toNat = a ^ k * a ^ (-k).toNat := by
  rw [← zpow_natCast, ← zpow_natCast, ← zpow_add₀ ha]
  congr 1
  omega

theorem decimal_eq (b : Binary) (p : Int) (c : Nat) :
    (b.decimal p c : ℚ) = c * 10 ^ p * b.unit p := by
  have hten := pow_toNat_eq (show (10 : ℚ) ≠ 0 by norm_num) p
  simp only [decimal, unit, Nat.pow_eq, Nat.cast_mul, Nat.cast_pow, Nat.cast_ofNat]
  rw [hten]
  ring

theorem quarters_eq (b : Binary) (p : Int) (q : Nat) :
    (b.quarters p q : ℚ) = q / 4 * 2 ^ b.e * b.unit p := by
  have htwo := pow_toNat_eq (show (2 : ℚ) ≠ 0 by norm_num) (b.e - 2)
  rw [neg_sub, zpow_sub₀ two_ne_zero] at htwo
  simp only [quarters, unit, Nat.pow_eq, Nat.cast_mul, Nat.cast_pow, Nat.cast_ofNat]
  rw [htwo]
  norm_num
  ring

theorem quarters_le_decimal_iff (b : Binary) (p : Int) (q c : Nat) :
    b.quarters p q ≤ b.decimal p c ↔ (q / 4 * 2 ^ b.e : ℚ) ≤ c * 10 ^ p := by
  rw [← Nat.cast_le (α := ℚ), quarters_eq, decimal_eq, mul_le_mul_iff_left₀ (b.unit_pos p)]

theorem decimal_le_quarters_iff (b : Binary) (p : Int) (q c : Nat) :
    b.decimal p c ≤ b.quarters p q ↔ (c * 10 ^ p : ℚ) ≤ q / 4 * 2 ^ b.e := by
  rw [← Nat.cast_le (α := ℚ), quarters_eq, decimal_eq, mul_le_mul_iff_left₀ (b.unit_pos p)]

/-- The test for a decimal is the one for nearness. -/
theorem roundsHere_iff {b : Binary} (hb : 0 < b.m) (p : Int) (c : Nat) :
    b.roundsHere p c = true ↔ b.Near (c * 10 ^ p) := by
  have hlow : ((4 * b.m - b.reachBelow : Nat) / 4 * 2 ^ b.e : ℚ) =
      (b.m - b.reachBelow / 4) * 2 ^ b.e := by
    have hle : b.reachBelow ≤ 4 * b.m := by
      rcases b.reachBelow_cases with ⟨hr, _⟩ | ⟨hr, _⟩ <;> omega
    rw [Nat.cast_sub hle]
    push_cast
    ring
  have hhigh : ((4 * b.m + 2 : Nat) / 4 * 2 ^ b.e : ℚ) = (b.m + 1 / 2) * 2 ^ b.e := by
    push_cast
    ring
  unfold roundsHere
  split
  · rename_i heven
    simp only [Bool.and_eq_true, decide_eq_true_eq, quarters_le_decimal_iff,
      decimal_le_quarters_iff, hlow, hhigh]
    constructor
    · intro h
      exact ⟨h.1, h.2, fun hodd => by omega⟩
    · intro h
      exact ⟨h.low, h.high⟩
  · rename_i hodd
    simp only [Bool.and_eq_true, decide_eq_true_eq, ← not_le, quarters_le_decimal_iff,
      decimal_le_quarters_iff, hlow, hhigh]
    simp only [not_le]
    constructor
    · intro h
      exact ⟨h.1.le, h.2.le, fun _ => h⟩
    · intro h
      exact h.odd (by omega)

/-! ## The first power of ten -/

/-- The estimated power of ten of a power of two. -/
def estimate (k : Int) : Int := (k * 30103).fdiv 100000

/-- For the powers of two that floats have, ten to the estimated power is not more; fractions
are cleared on either side. -/
theorem estimate_le : ∀ i : Fin 2098,
    10 ^ (estimate (i - 1074)).toNat * 2 ^ (-(i - 1074 : Int)).toNat ≤
      2 ^ (i - 1074 : Int).toNat * 10 ^ (-estimate (i - 1074)).toNat := by
  decide +kernel

theorem tenPow_estimate_le {k : Int} (hlow : -1074 ≤ k) (hhigh : k < 1024) :
    (10 : ℚ) ^ estimate k ≤ 2 ^ k := by
  obtain ⟨i, rfl⟩ : ∃ i : Nat, k = i - 1074 := ⟨(k + 1074).toNat, by omega⟩
  have hle := estimate_le ⟨i, by omega⟩
  simp only at hle
  generalize estimate (i - 1074) = p at hle ⊢
  generalize (i - 1074 : Int) = k at hle ⊢
  have hcast : (10 ^ p.toNat * 2 ^ (-k).toNat : ℚ) ≤ 2 ^ k.toNat * 10 ^ (-p).toNat := by
    exact_mod_cast hle
  rw [pow_toNat_eq (show (10 : ℚ) ≠ 0 by norm_num), pow_toNat_eq (two_ne_zero (α := ℚ)) k] at hcast
  have hunit : (0 : ℚ) < 10 ^ (-p).toNat * 2 ^ (-k).toNat := by positivity
  apply le_of_mul_le_mul_right _ hunit
  linarith

/-- The power of ten at which the search begins is not above the float. -/
theorem tenPow_powerOfTen_le {b : Binary} (hb : b.Canonical) (hmax : b.e ≤ 971) :
    (10 : ℚ) ^ b.powerOfTen ≤ b.value := by
  have hvalue : ((4 * b.m : Nat) / 4 * 2 ^ b.e : ℚ) = b.value := by
    rw [value]
    push_cast
    ring
  unfold powerOfTen
  simp only
  split
  · rename_i h
    rw [decimal_le_quarters_iff, hvalue, Nat.cast_one, one_mul] at h
    exact h
  · have hlog : b.m.log2 < 53 := (Nat.log2_lt hb.pos.ne').mpr hb.lt
    have hle := hb.le
    calc
      (10 : ℚ) ^ estimate (b.m.log2 + b.e) ≤ 2 ^ (b.m.log2 + b.e) :=
        tenPow_estimate_le (by omega) (by omega)
      _ ≤ b.value := (log2_bounds ⟨le_rfl, lt_add_one _⟩ b.e).1 hb.pos

/-! ## The search -/

theorem floorAt_bounds (b : Binary) (p : Int) :
    (b.floorAt p * 10 ^ p : ℚ) ≤ b.value ∧ b.value < (b.floorAt p + 1 : Nat) * 10 ^ p := by
  have hunit := b.unit_pos p
  have hpoint : (b.decimal p 1 : ℚ) = 10 ^ p * b.unit p := by
    rw [decimal_eq, Nat.cast_one, one_mul]
  have hvalue : (b.quarters p (4 * b.m) : ℚ) = b.value * b.unit p := by
    rw [quarters_eq, value]
    push_cast
    ring
  have hpos : 0 < b.decimal p 1 := by
    have : (0 : ℚ) < b.decimal p 1 := by
      rw [hpoint]
      positivity
    exact_mod_cast this
  have hle : (b.floorAt p * b.decimal p 1 : ℚ) ≤ b.quarters p (4 * b.m) := by
    exact_mod_cast Nat.div_mul_le_self _ _
  have hlt : (b.quarters p (4 * b.m) : ℚ) < (b.floorAt p + 1 : Nat) * b.decimal p 1 := by
    exact_mod_cast Nat.lt_mul_of_div_lt (Nat.lt_succ_self _) hpos
  rw [hpoint, hvalue, ← mul_assoc] at hle hlt
  exact ⟨le_of_mul_le_mul_right hle hunit, lt_of_mul_lt_mul_right hlt hunit.le⟩

/-- A point of a grid that is found rounds to the float. -/
theorem roundsHere_of_onGrid? {b : Binary} {p : Int} {c : Nat} (h : b.onGrid? p = some c) :
    b.roundsHere p c = true := by
  unfold onGrid? at h
  simp only at h
  split at h
  · rename_i hbelow habove
    split at h <;> cases h <;> assumption
  all_goals cases h <;> assumption

/-- A grid that is finer than the reach of a float has a point that rounds to it. -/
theorem onGrid?_isSome {b : Binary} (hb : 0 < b.m) {p : Int}
    (hfine : (10 : ℚ) ^ p < (b.reachBelow / 4 + 1 / 2) * 2 ^ b.e) : (b.onGrid? p).isSome := by
  have hunit : (0 : ℚ) < 2 ^ b.e := zpow_pos two_pos b.e
  obtain ⟨hbelow, habove⟩ := b.floorAt_bounds p
  rw [value] at hbelow habove
  have hreach : (0 : ℚ) < b.reachBelow := by
    rcases b.reachBelow_cases with ⟨hr, _⟩ | ⟨hr, _⟩ <;> rw [hr] <;> norm_num
  -- the two neighbours are less far apart than the ends of the reach
  have hsome : b.roundsHere p (b.floorAt p) = true ∨
      b.roundsHere p (b.floorAt p + 1) = true := by
    rw [roundsHere_iff hb, roundsHere_iff hb]
    by_cases hlow : (b.m - b.reachBelow / 4 : ℚ) * 2 ^ b.e < b.floorAt p * 10 ^ p
    · left
      have hhigh : (b.floorAt p * 10 ^ p : ℚ) < (b.m + 1 / 2) * 2 ^ b.e := by
        refine hbelow.trans_lt (mul_lt_mul_of_pos_right ?_ hunit)
        linarith
      exact ⟨hlow.le, hhigh.le, fun _ => ⟨hlow, hhigh⟩⟩
    · right
      rw [not_lt] at hlow
      have hlow' : (b.m - b.reachBelow / 4 : ℚ) * 2 ^ b.e < (b.floorAt p + 1 : Nat) * 10 ^ p := by
        refine lt_trans (mul_lt_mul_of_pos_right ?_ hunit) habove
        linarith
      have hhigh : ((b.floorAt p + 1 : Nat) * 10 ^ p : ℚ) < (b.m + 1 / 2) * 2 ^ b.e := by
        push_cast
        linarith
      exact ⟨hlow'.le, hhigh.le, fun _ => ⟨hlow', hhigh⟩⟩
  unfold onGrid?
  simp only
  split <;> simp_all

theorem search_roundsHere {b : Binary} {grids : Nat} {p : Int} {i : Nat} (hi : i < grids)
    (h : (b.onGrid? (p - i)).isSome) :
    b.roundsHere (b.search grids p).exponent (b.search grids p).digits = true := by
  induction grids generalizing p i with
  | zero => omega
  | succ grids ih =>
    rw [search]
    split
    · rename_i c hc
      exact roundsHere_of_onGrid? hc
    · rename_i hnone
      cases i with
      | zero => simp [hnone] at h
      | succ i =>
        refine ih (i := i) (by omega) ?_
        rwa [show p - 1 - (i : Int) = p - (i + 1 : Nat) by push_cast; ring]

/-- Seventeen digits are enough for every float. -/
theorem tenPow_fine {b : Binary} (hb : b.Canonical) (hmax : b.e ≤ 971) :
    (10 : ℚ) ^ (b.powerOfTen - 16) < (b.reachBelow / 4 + 1 / 2) * 2 ^ b.e := by
  have hunit : (0 : ℚ) < 2 ^ b.e := zpow_pos two_pos b.e
  have hfloat : (b.m / 10 ^ 16 : ℚ) < b.reachBelow / 4 + 1 / 2 := by
    have hm : (b.m : ℚ) < 2 ^ 53 := by exact_mod_cast hb.lt
    rcases b.reachBelow_cases with ⟨hr, hm', _⟩ | ⟨hr, _⟩
    · rw [hr, hm']
      norm_num
    · rw [hr, div_lt_iff₀ (by norm_num)]
      push_cast
      linarith
  calc
    (10 : ℚ) ^ (b.powerOfTen - 16) = 10 ^ b.powerOfTen / 10 ^ 16 := by
      rw [zpow_sub₀ (by norm_num)]
      norm_num
    _ ≤ b.value / 10 ^ 16 := by
      exact div_le_div_of_nonneg_right (tenPow_powerOfTen_le hb hmax) (by norm_num)
    _ = b.m / 10 ^ 16 * 2 ^ b.e := by rw [value, mul_div_right_comm]
    _ < (b.reachBelow / 4 + 1 / 2) * 2 ^ b.e := mul_lt_mul_of_pos_right hfloat hunit

/-- The shortest decimal of a float is near to it. -/
theorem shortest_near {b : Binary} (hb : b.Canonical) (hmax : b.e ≤ 971) :
    b.Near (b.shortest.digits * 10 ^ b.shortest.exponent) := by
  refine (roundsHere_iff hb.pos _ _).mp (search_roundsHere (i := 16) (by omega) ?_)
  exact onGrid?_isSome hb.pos (tenPow_fine hb hmax)

theorem shortest_pos {b : Binary} (hb : b.Canonical) (hmax : b.e ≤ 971) :
    (0 : ℚ) < b.shortest.digits * 10 ^ b.shortest.exponent := by
  refine lt_of_lt_of_le ?_ (shortest_near hb hmax).half_le.1
  have hm : (1 : ℚ) ≤ b.m := by exact_mod_cast hb.pos
  exact mul_pos (by linarith) (zpow_pos two_pos b.e)

theorem shortest_digits_pos {b : Binary} (hb : b.Canonical) (hmax : b.e ≤ 971) :
    0 < b.shortest.digits := by
  have hpos := shortest_pos hb hmax
  refine Nat.pos_of_ne_zero fun h => ?_
  rw [h, Nat.cast_zero, zero_mul] at hpos
  exact lt_irrefl _ hpos

end MiniLisp.Decimal.Binary
