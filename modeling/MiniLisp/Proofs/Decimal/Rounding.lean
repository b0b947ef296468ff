import Mathlib
import MiniLisp.Decimal.Shortest

/-!
# Rounding to the nearest float

`Binary.Near b x` says that the number `x` rounds to the float `b`, the ends of the reach
included when the float is even. The arithmetic of floats keeps a mantissa with two residual
bits; `Residue em w` says which numbers `w` these stand for, and shifting keeps that. So a
quotient is rounded to the float it is near to (`div_near`), from whichever mantissas and
exponents it was made.
-/

namespace MiniLisp.Decimal

open Float.Model Float.Model.UnpackedFloat

/-! ## The numbers near a float -/

namespace Binary

/-- The number that a float is. -/
def value (b : Binary) : ℚ := b.m * 2 ^ b.e

/-- The one form of a float with 53 binary digits, or fewer at the least exponent. -/
structure Canonical (b : Binary) : Prop where
  pos : 0 < b.m
  lt : b.m < 2 ^ 53
  le : -1074 ≤ b.e
  full : b.e = -1074 ∨ 2 ^ 52 ≤ b.m

/-- The numbers that round to a float: not further below than half of the gap to the float
below, not further above than half of the gap to the one above, and strictly less far when
the float is odd. -/
structure Near (b : Binary) (x : ℚ) : Prop where
  low : (b.m - b.reachBelow / 4 : ℚ) * 2 ^ b.e ≤ x
  high : x ≤ (b.m + 1 / 2 : ℚ) * 2 ^ b.e
  odd : b.m % 2 = 1 → (b.m - b.reachBelow / 4 : ℚ) * 2 ^ b.e < x ∧
    x < (b.m + 1 / 2 : ℚ) * 2 ^ b.e

theorem reachBelow_cases (b : Binary) :
    (b.reachBelow = 1 ∧ b.m = 2 ^ 52 ∧ -1074 < b.e) ∨
    (b.reachBelow = 2 ∧ ¬ (b.m = 2 ^ 52 ∧ -1074 < b.e)) := by
  unfold reachBelow
  split
  · rename_i h
    exact .inl ⟨rfl, h.1, h.2⟩
  · rename_i h
    exact .inr ⟨rfl, h⟩

/-- Nothing near a float is further below it than half a unit of its last place. -/
theorem Near.half_le {b : Binary} {x : ℚ} (h : b.Near x) :
    (b.m - 1 / 2 : ℚ) * 2 ^ b.e ≤ x ∧ (b.m % 2 = 1 → (b.m - 1 / 2 : ℚ) * 2 ^ b.e < x) := by
  have hunit : (0 : ℚ) < 2 ^ b.e := by positivity
  have hreach : (b.m - 1 / 2 : ℚ) * 2 ^ b.e ≤ (b.m - b.reachBelow / 4 : ℚ) * 2 ^ b.e := by
    apply mul_le_mul_of_nonneg_right _ hunit.le
    rcases b.reachBelow_cases with ⟨hr, _⟩ | ⟨hr, _⟩ <;> rw [hr] <;> push_cast <;> linarith
  exact ⟨hreach.trans h.low, fun hodd => hreach.trans_lt (h.odd hodd).1⟩

end Binary

/-! ## Mantissas with residual bits -/

/-- The number `w` lies where the residual bits of `em` say. -/
def Residue (em : ExtendedMantissa) (w : ℚ) : Prop :=
  match em.roundBit, em.stickyBit with
  | false, false => w = em.mantissa
  | false, true => em.mantissa < w ∧ w < em.mantissa + 1 / 2
  | true, false => w = em.mantissa + 1 / 2
  | true, true => em.mantissa + 1 / 2 < w ∧ w < em.mantissa + 1

theorem Residue.bounds {em : ExtendedMantissa} {w : ℚ} (h : Residue em w) :
    (em.mantissa : ℚ) ≤ w ∧ w < em.mantissa + 1 := by
  obtain ⟨m, r, s⟩ := em
  cases r <;> cases s <;> simp only [Residue] at h <;> constructor <;> linarith

theorem Residue.shiftRightOne {em : ExtendedMantissa} {w : ℚ} (h : Residue em w) :
    Residue em.shiftRightOne (w / 2) := by
  obtain ⟨m, r, s⟩ := em
  -- the bit that is shifted out is the new round bit
  obtain ⟨k, rfl | rfl⟩ := m.even_or_odd'
  · have hdiv : 2 * k / 2 = k := by omega
    have hmod : (2 * k % 2 != 0) = false := by simp
    simp only [ExtendedMantissa.shiftRightOne, hdiv, hmod]
    cases r <;> cases s <;> simp only [Residue, Bool.or_true, Bool.or_false] at h ⊢ <;>
      push_cast at h <;> first | linarith | (constructor <;> linarith)
  · have hdiv : (2 * k + 1) / 2 = k := by omega
    have hmod : ((2 * k + 1) % 2 != 0) = true := by
      rw [show (2 * k + 1) % 2 = 1 by omega]
      rfl
    simp only [ExtendedMantissa.shiftRightOne, hdiv, hmod]
    cases r <;> cases s <;> simp only [Residue, Bool.or_true, Bool.or_false] at h ⊢ <;>
      push_cast at h <;> first | linarith | (constructor <;> linarith)

theorem Residue.shiftRight {em : ExtendedMantissa} {w : ℚ} (h : Residue em w) (n : Nat) :
    Residue (em >>> n) (w / 2 ^ n) := by
  induction n with
  | zero =>
    rw [pow_zero, div_one]
    exact h
  | succ n ih =>
    rw [pow_succ, ← div_div]
    exact ih.shiftRightOne

/-- A number is rounded to the integer that it is less than a half away from, and to the even
one of two that are a half away. -/
theorem Residue.roundedMantissa {em : ExtendedMantissa} {w : ℚ} (h : Residue em w) {n : Nat}
    (hlow : (n - 1 / 2 : ℚ) ≤ w) (hhigh : w ≤ n + 1 / 2)
    (hodd : n % 2 = 1 → (n - 1 / 2 : ℚ) < w ∧ w < n + 1 / 2) : em.roundedMantissa = n := by
  obtain ⟨m, r, s⟩ := em
  have hle : (m : ℚ) < n + 1 := by linarith [h.bounds.1]
  have hge : (n : ℚ) < m + 2 := by linarith [h.bounds.2]
  norm_cast at hle hge
  obtain rfl | rfl : n = m ∨ n = m + 1 := by omega
  · cases r <;> cases s <;>
      simp only [Residue, ExtendedMantissa.roundedMantissa, ExtendedMantissa.accuracy,
        Accuracy.roundToNearestEven] at h ⊢
    · -- half way up from an even integer
      by_contra hne
      have := hodd (by omega)
      linarith
    · linarith
  · push_cast at hlow hhigh hodd
    cases r <;> cases s <;>
      simp only [Residue, ExtendedMantissa.roundedMantissa, ExtendedMantissa.accuracy,
        Accuracy.roundToNearestEven] at h ⊢
    · linarith
    · linarith
    · -- half way up from an odd integer
      by_contra hne
      have := hodd (by omega)
      linarith

theorem mantissa_ofMantissaAndAccuracy (m : Nat) (acc : Accuracy) :
    (ExtendedMantissa.ofMantissaAndAccuracy m acc).mantissa = m := by
  unfold ExtendedMantissa.ofMantissaAndAccuracy
  split <;> rfl

theorem residue_accuracyOfFraction (m : Nat) {r d : Nat} (h : r < d) :
    Residue (.ofMantissaAndAccuracy m (accuracyOfFraction r d)) (m + r / d) := by
  have hd : (0 : ℚ) < d := by exact_mod_cast Nat.zero_lt_of_lt h
  unfold accuracyOfFraction
  split
  · rename_i hr
    simp [hr, Residue, ExtendedMantissa.ofMantissaAndAccuracy]
  · rename_i hr
    have hpos : (0 : ℚ) < r / d := div_pos (by exact_mod_cast Nat.pos_of_ne_zero hr) hd
    have hone : (r : ℚ) / d < 1 := by
      rw [div_lt_one hd]
      exact_mod_cast h
    rcases Nat.lt_trichotomy (2 * r) d with hlt | heq | hgt
    · have hhalf : (r : ℚ) / d < 1 / 2 := by
        have hdouble : (2 * r : ℚ) < d := by exact_mod_cast hlt
        rw [div_lt_iff₀ hd]
        linarith
      rw [Nat.compare_eq_lt.mpr hlt]
      simp only [Residue, ExtendedMantissa.ofMantissaAndAccuracy]
      constructor <;> linarith
    · have hhalf : (r : ℚ) / d = 1 / 2 := by
        have hdouble : (2 * r : ℚ) = d := by exact_mod_cast heq
        rw [div_eq_iff hd.ne']
        linarith
      rw [Nat.compare_eq_eq.mpr heq]
      simp only [Residue, ExtendedMantissa.ofMantissaAndAccuracy]
      linarith
    · have hhalf : 1 / 2 < (r : ℚ) / d := by
        have hdouble : (d : ℚ) < 2 * r := by exact_mod_cast hgt
        rw [lt_div_iff₀ hd]
        linarith
      rw [Nat.compare_eq_gt.mpr hgt]
      simp only [Residue, ExtendedMantissa.ofMantissaAndAccuracy]
      constructor <;> linarith

/-! ## Where a float's last place is -/

theorem targetExponent_eq (m : Nat) (e : Int) :
    Format.binary64.targetExponent (totalExponent m e) = max (m.log2 + e - 52) (-1074) := by
  simp only [Format.targetExponent, Format.mantissaBits, Format.minExponent, totalExponent]
  omega

theorem lt_of_two_zpow {a b : Int} {x : ℚ} (ha : 2 ^ a ≤ x) (hb : x < 2 ^ b) : a < b :=
  (zpow_lt_zpow_iff_right₀ one_lt_two).mp (ha.trans_lt hb)

/-- A number lies within the power of two that its integer part gives and the next one. -/
theorem log2_bounds {m : Nat} {w : ℚ} (hw : (m : ℚ) ≤ w ∧ w < m + 1) (e : Int) :
    (0 < m → (2 : ℚ) ^ (m.log2 + e) ≤ w * 2 ^ e) ∧ w * 2 ^ e < (2 : ℚ) ^ (m.log2 + e + 1) := by
  have hunit : (0 : ℚ) < 2 ^ e := zpow_pos two_pos e
  constructor
  · intro hm
    have hlow : ((2 ^ m.log2 : Nat) : ℚ) ≤ m := by exact_mod_cast Nat.log2_self_le hm.ne'
    push_cast at hlow
    rw [zpow_add₀ two_ne_zero, zpow_natCast]
    exact mul_le_mul_of_nonneg_right (hlow.trans hw.1) hunit.le
  · have hhigh : (m : ℚ) + 1 ≤ ((2 ^ (m.log2 + 1) : Nat) : ℚ) := by
      exact_mod_cast Nat.succ_le_of_lt Nat.lt_log2_self
    push_cast at hhigh
    rw [show (m.log2 + e + 1 : Int) = ((m.log2 + 1 : Nat) : Int) + e by push_cast; ring,
      zpow_add₀ two_ne_zero, zpow_natCast]
    exact mul_lt_mul_of_pos_right (hw.2.trans_le hhigh) hunit

theorem two_zpow_add (k : Nat) (e : Int) : (2 : ℚ) ^ (k + e : Int) = 2 ^ k * 2 ^ e := by
  rw [zpow_add₀ two_ne_zero, zpow_natCast]

namespace Binary.Near

variable {b : Binary} {x : ℚ}

/-- What is near to a float has no more binary digits before the last place than it. -/
theorem lt_two_zpow (h : b.Near x) (hb : b.Canonical) : x < 2 ^ (53 + b.e) := by
  have hm : (b.m : ℚ) + 1 ≤ 2 ^ 53 := by exact_mod_cast hb.lt
  calc
    x ≤ (b.m + 1 / 2) * 2 ^ b.e := h.high
    _ < 2 ^ 53 * 2 ^ b.e := mul_lt_mul_of_pos_right (by linarith) (zpow_pos two_pos b.e)
    _ = 2 ^ (53 + b.e) := (two_zpow_add 53 b.e).symm

/-- What is near to a float with all its digits has at most one digit less. -/
theorem two_zpow_le (h : b.Near x) (hfull : 2 ^ 52 ≤ b.m) : 2 ^ (51 + b.e) ≤ x := by
  have hm : (2 : ℚ) ^ 52 ≤ b.m := by exact_mod_cast hfull
  calc
    (2 : ℚ) ^ (51 + b.e) = 2 ^ 51 * 2 ^ b.e := two_zpow_add 51 b.e
    _ ≤ (b.m - 1 / 2) * 2 ^ b.e :=
      mul_le_mul_of_nonneg_right (by linarith) (zpow_pos two_pos b.e).le
    _ ≤ x := h.half_le.1

/-- It has one digit less only just below the least float of an exponent. -/
theorem eq_of_lt (h : b.Near x) (hfull : 2 ^ 52 ≤ b.m) (hx : x < 2 ^ (52 + b.e)) :
    b.m = 2 ^ 52 := by
  by_contra hne
  have hm : (2 : ℚ) ^ 52 + 1 ≤ b.m := by
    exact_mod_cast Nat.lt_of_le_of_ne hfull (Ne.symm hne)
  refine absurd hx (not_lt.mpr ?_)
  calc
    (2 : ℚ) ^ (52 + b.e) = 2 ^ 52 * 2 ^ b.e := two_zpow_add 52 b.e
    _ ≤ (b.m - 1 / 2) * 2 ^ b.e :=
      mul_le_mul_of_nonneg_right (by linarith) (zpow_pos two_pos b.e).le
    _ ≤ x := h.half_le.1

end Binary.Near

/-- The last place of a float is its own exponent, also when it is found from a number near
it; only just below the least float of an exponent it is one lower. -/
theorem Binary.Near.target {b : Binary} (hb : b.Canonical) {m : Nat} {e : Int} {w : ℚ}
    (hw : (m : ℚ) ≤ w ∧ w < m + 1)
    (he : e ≤ Format.binary64.targetExponent (totalExponent m e)) (hnear : b.Near (w * 2 ^ e)) :
    Format.binary64.targetExponent (totalExponent m e) = b.e ∨
    (Format.binary64.targetExponent (totalExponent m e) = b.e - 1 ∧ b.m = 2 ^ 52 ∧
      -1074 < b.e ∧ w * 2 ^ e < 2 ^ (52 + b.e)) := by
  rw [targetExponent_eq] at he ⊢
  obtain ⟨hlow, hhigh⟩ := log2_bounds hw e
  have habove := hnear.lt_two_zpow hb
  have hle := hb.le
  by_cases hleast : b.e = -1074
  · left
    rcases m.eq_zero_or_pos with rfl | hm
    · rw [Nat.log2_zero] at he ⊢
      omega
    · have := lt_of_two_zpow (hlow hm) habove
      omega
  have hfull : 2 ^ 52 ≤ b.m := hb.full.resolve_left hleast
  have hdigits := lt_of_two_zpow (hnear.two_zpow_le hfull) hhigh
  have hm : 0 < m := by
    by_contra hm
    obtain rfl : m = 0 := by omega
    rw [Nat.log2_zero] at he hdigits
    omega
  have hlt := lt_of_two_zpow (hlow hm) habove
  rcases lt_or_ge (w * 2 ^ e) (2 ^ (52 + b.e)) with hx | hx
  · right
    have hlt' := lt_of_two_zpow (hlow hm) hx
    exact ⟨by omega, hnear.eq_of_lt hfull hx, by omega, hx⟩
  · left
    have hge := lt_of_two_zpow hx hhigh
    omega

/-! ## Rounding a mantissa -/

theorem shiftToTargetExponent_residue {m : Nat} {e : Int} {acc : Accuracy} {w : ℚ}
    (hw : Residue (.ofMantissaAndAccuracy m acc) w) {t : Int}
    (ht : Format.binary64.targetExponent (totalExponent m e) = t) (he : e ≤ t) :
    ∃ em u, shiftToTargetExponent Format.binary64 m e acc = (em, t) ∧ Residue em u ∧
      u * 2 ^ t = w * 2 ^ e := by
  refine ⟨_, w / 2 ^ (t - e).toNat, ?_, hw.shiftRight (t - e).toNat, ?_⟩
  · rw [shiftToTargetExponent, ht, shiftToExponent]
    exact Prod.ext rfl (by simp only; omega)
  · rw [div_mul_eq_mul_div, div_eq_iff (by positivity), mul_assoc, ← zpow_natCast (2 : ℚ),
      ← zpow_add₀ two_ne_zero, show e + ((t - e).toNat : Int) = t by omega]

/-- A float's own mantissa is not shifted any more. -/
theorem shiftToTargetExponent_canonical {b : Binary} (hb : b.Canonical) :
    shiftToTargetExponent Format.binary64 b.m b.e .exact = (⟨b.m, false, false⟩, b.e) := by
  have ht : Format.binary64.targetExponent (totalExponent b.m b.e) = b.e := by
    rw [targetExponent_eq]
    have hlt : b.m.log2 < 53 := (Nat.log2_lt hb.pos.ne').mpr hb.lt
    have hle := hb.le
    rcases hb.full with h | h
    · omega
    · have := (Nat.le_log2 hb.pos.ne').mpr h
      omega
  rw [shiftToTargetExponent, ht, shiftToExponent, Int.sub_self]
  exact Prod.ext rfl (by simp)

/-- A mantissa that overflowed is shifted once more. -/
theorem shiftToTargetExponent_overflow {e : Int} (he : -1074 < e) :
    shiftToTargetExponent Format.binary64 (2 ^ 53) (e - 1) .exact =
      (⟨2 ^ 52, false, false⟩, e) := by
  have ht : Format.binary64.targetExponent (totalExponent (2 ^ 53) (e - 1)) = e := by
    rw [targetExponent_eq, Nat.log2_two_pow]
    omega
  rw [shiftToTargetExponent, ht, shiftToExponent, show (e - (e - 1)).toNat = 1 by omega]
  exact Prod.ext rfl (by simp)

/-- In its own last place a number is rounded to the mantissa of the float it is near to. -/
theorem Binary.Near.roundedMantissa {b : Binary} {em : ExtendedMantissa} {u : ℚ}
    (hnear : b.Near (u * 2 ^ b.e)) (hu : Residue em u) : em.roundedMantissa = b.m := by
  have hunit : (0 : ℚ) < 2 ^ b.e := zpow_pos two_pos b.e
  obtain ⟨hlow, hodd⟩ := hnear.half_le
  apply hu.roundedMantissa (le_of_mul_le_mul_right hlow hunit)
    (le_of_mul_le_mul_right hnear.high hunit)
  intro h
  exact ⟨lt_of_mul_lt_mul_right (hodd h) hunit.le,
    lt_of_mul_lt_mul_right (hnear.odd h).2 hunit.le⟩

/-- Just below the least float of an exponent, a number is rounded to the first mantissa with
a digit too many: that float in the lower unit. -/
theorem Binary.Near.roundedMantissa_below {b : Binary} {em : ExtendedMantissa} {u : ℚ}
    (hnear : b.Near (u * 2 ^ (b.e - 1))) (hu : Residue em u) (hm : b.m = 2 ^ 52)
    (he : -1074 < b.e) (hx : u * 2 ^ (b.e - 1) < 2 ^ (52 + b.e)) :
    em.roundedMantissa = 2 ^ 53 := by
  have hunit : (0 : ℚ) < 2 ^ (b.e - 1) := zpow_pos two_pos _
  have hhalf : (2 : ℚ) ^ b.e = 2 * 2 ^ (b.e - 1) := by
    rw [mul_comm, ← zpow_add_one₀ two_ne_zero, sub_add_cancel]
  have hreach : b.reachBelow = 1 := if_pos ⟨hm, he⟩
  have hlow : (2 ^ 53 - 1 / 2 : ℚ) ≤ u := by
    have hlow := hnear.low
    rw [hm, hreach, hhalf, ← mul_assoc] at hlow
    have hle := le_of_mul_le_mul_right hlow hunit
    push_cast at hle
    linarith
  have hhigh : u < 2 ^ 53 := by
    rw [show (52 : Int) = (52 : Nat) from rfl, two_zpow_add, hhalf, ← mul_assoc] at hx
    have hlt := lt_of_mul_lt_mul_right hx hunit.le
    linarith
  apply hu.roundedMantissa
  · push_cast
    linarith
  · push_cast
    linarith
  · intro h
    exact absurd h (by decide)

/-- Rounding gives the float that the exact number is near to. -/
theorem roundWithAccuracy_near {b : Binary} (hb : b.Canonical) {m : Nat} {e : Int}
    {acc : Accuracy} {w : ℚ} (hw : Residue (.ofMantissaAndAccuracy m acc) w)
    (he : e ≤ Format.binary64.targetExponent (totalExponent m e))
    (hnear : b.Near (w * 2 ^ e)) (s : Sign) :
    roundWithAccuracy Format.binary64 s m e acc = .finite s b.m b.e hb.pos := by
  have hm : (m : ℚ) ≤ w ∧ w < m + 1 := by
    simpa only [mantissa_ofMantissaAndAccuracy] using hw.bounds
  rcases hnear.target hb hm he with ht | ⟨ht, hfull, hlt, hx⟩
  · obtain ⟨em, u, hshift, hu, hvalue⟩ := shiftToTargetExponent_residue hw ht (ht ▸ he)
    rw [← hvalue] at hnear
    simp only [roundWithAccuracy, hshift, hnear.roundedMantissa hu,
      shiftToTargetExponent_canonical hb, hb.pos.ne', dite_false]
  · obtain ⟨em, u, hshift, hu, hvalue⟩ := shiftToTargetExponent_residue hw ht (ht ▸ he)
    rw [← hvalue] at hnear hx
    simp only [roundWithAccuracy, hshift, hnear.roundedMantissa_below hu hfull hlt hx,
      shiftToTargetExponent_overflow hlt]
    simp [hfull]

/-! ## Dividing -/

/-- A quotient has digits enough to be rounded. -/
theorem divCore_spec {m₁ m₂ : Nat} (h₁ : 0 < m₁) (h₂ : 0 < m₂) (e₁ e₂ : Int) :
    ∃ m e acc w, divCore Format.binary64 m₁ e₁ m₂ e₂ = (m, e, acc) ∧
      Residue (.ofMantissaAndAccuracy m acc) w ∧
      e ≤ Format.binary64.targetExponent (totalExponent m e) ∧
      w * 2 ^ e = (m₁ * 2 ^ e₁ : ℚ) / (m₂ * 2 ^ e₂) := by
  have hm₂ : (0 : ℚ) < m₂ := by exact_mod_cast h₂
  obtain ⟨e, he⟩ : ∃ e, min (e₁ - e₂) (Format.binary64.targetExponent
      (totalExponent m₁ e₁ - totalExponent m₂ e₂)) = e := ⟨_, rfl⟩
  have hle : e ≤ e₁ - e₂ := he ▸ min_le_left _ _
  obtain ⟨n, hn⟩ : ∃ n, m₁ <<< (e₁ - e₂ - e).toNat = n := ⟨_, rfl⟩
  -- the exact quotient in units of `2 ^ e`
  have hw : ((n / m₂ : Nat) + (n % m₂ : Nat) / m₂ : ℚ) = n / m₂ := by
    rw [eq_div_iff hm₂.ne', add_mul, div_mul_cancel₀ _ hm₂.ne']
    exact_mod_cast Nat.div_add_mod' n m₂
  have hvalue : (n / m₂ : ℚ) * 2 ^ e = (m₁ * 2 ^ e₁ : ℚ) / (m₂ * 2 ^ e₂) := by
    rw [← hn, Nat.shiftLeft_eq, Nat.cast_mul, Nat.cast_pow, Nat.cast_ofNat, ← zpow_natCast,
      Int.toNat_of_nonneg (by omega), zpow_sub₀ two_ne_zero, zpow_sub₀ two_ne_zero]
    field_simp
  refine ⟨n / m₂, e, accuracyOfFraction (n % m₂) m₂, n / m₂, ?_, ?_, ?_, hvalue⟩
  · simp only [divCore, he, hn]
  · rw [← hw]
    exact residue_accuracyOfFraction _ (Nat.mod_lt n h₂)
  · rw [targetExponent_eq]
    by_cases hleast : e ≤ -1074
    · exact le_max_of_le_right hleast
    · -- the quotient has its 53 digits, or one more
      have hdigits : m₂.log2 + 1 + 52 ≤ m₁.log2 + (e₁ - e₂ - e).toNat := by
        simp only [Format.targetExponent, Format.mantissaBits, Format.minExponent,
          totalExponent] at he
        omega
      have hfull : 2 ^ 52 * m₂ ≤ n := calc
        2 ^ 52 * m₂ ≤ 2 ^ 52 * 2 ^ (m₂.log2 + 1) :=
          Nat.mul_le_mul_left _ Nat.lt_log2_self.le
        _ = 2 ^ (m₂.log2 + 1 + 52) := by rw [← Nat.pow_add, Nat.add_comm]
        _ ≤ 2 ^ (m₁.log2 + (e₁ - e₂ - e).toNat) := Nat.pow_le_pow_right two_pos hdigits
        _ = 2 ^ m₁.log2 * 2 ^ (e₁ - e₂ - e).toNat := Nat.pow_add ..
        _ ≤ m₁ * 2 ^ (e₁ - e₂ - e).toNat :=
          Nat.mul_le_mul_right _ (Nat.log2_self_le h₁.ne')
        _ = n := by rw [← hn, Nat.shiftLeft_eq]
      have hquot : 2 ^ 52 ≤ n / m₂ := (Nat.le_div_iff_mul_le h₂).mpr hfull
      have hlog : 52 ≤ (n / m₂).log2 :=
        (Nat.le_log2 (Nat.ne_of_gt (lt_of_lt_of_le (by decide) hquot))).mpr hquot
      omega

/-- A quotient is rounded to the float that it is near to. -/
theorem div_near {b : Binary} (hb : b.Canonical) {m₁ m₂ : Nat} (h₁ : 0 < m₁) (h₂ : 0 < m₂)
    {e₁ e₂ : Int} (hnear : b.Near ((m₁ * 2 ^ e₁ : ℚ) / (m₂ * 2 ^ e₂))) :
    UnpackedFloat.div Format.binary64 (.finite .positive m₁ e₁ h₁) (.finite .positive m₂ e₂ h₂) =
      .finite .positive b.m b.e hb.pos := by
  obtain ⟨m, e, acc, w, hcore, hw, he, hvalue⟩ := divCore_spec h₁ h₂ e₁ e₂
  rw [← hvalue] at hnear
  simp only [UnpackedFloat.div, hcore]
  exact roundWithAccuracy_near hb hw he hnear _

end MiniLisp.Decimal
