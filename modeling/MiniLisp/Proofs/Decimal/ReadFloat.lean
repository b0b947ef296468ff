import MiniLisp.Decimal.FloatText
import MiniLisp.Proofs.Decimal.Packing

/-!
# Reading floats

A decimal fraction is read as the float that it is near to. Small ones are divided as floats,
which loses nothing since both sides of the division are exact, and the others as integers.
-/

namespace MiniLisp.Decimal

open Float.Model Float.Model.UnpackedFloat

/-! ## Integers and powers of ten as floats -/

/-- The canonical form of an integer of at most 53 binary digits. -/
def Binary.ofNat (n : Nat) : Binary := ⟨n <<< (52 - n.log2), n.log2 - 52⟩

theorem Binary.canonical_ofNat {n : Nat} (hn : 0 < n) (hlt : n < 2 ^ 53) :
    (Binary.ofNat n).Canonical := by
  have hlog : n.log2 < 53 := (Nat.log2_lt hn.ne').mpr hlt
  have hpow : 2 ^ n.log2 * 2 ^ (52 - n.log2) = 2 ^ 52 := by
    rw [← Nat.pow_add, show n.log2 + (52 - n.log2) = 52 by omega]
  have hlow : 2 ^ 52 ≤ n * 2 ^ (52 - n.log2) := by
    rw [← hpow]
    exact Nat.mul_le_mul_right _ (Nat.log2_self_le hn.ne')
  have hhigh : n * 2 ^ (52 - n.log2) < 2 * 2 ^ 52 := by
    rw [← hpow, ← Nat.mul_assoc, ← Nat.pow_succ']
    exact Nat.mul_lt_mul_of_pos_right Nat.lt_log2_self (by positivity)
  rw [Binary.ofNat, Nat.shiftLeft_eq]
  refine ⟨?_, ?_, ?_, .inr hlow⟩ <;> simp only <;> omega

theorem Binary.value_ofNat {n : Nat} (hlt : n < 2 ^ 53) : (Binary.ofNat n).value = n := by
  have hlog : n.log2 ≤ 52 := by
    rcases n.eq_zero_or_pos with rfl | hn
    · decide
    · exact Nat.le_of_lt_succ ((Nat.log2_lt hn.ne').mpr hlt)
  rw [Binary.ofNat, Binary.value, Nat.shiftLeft_eq, Nat.cast_mul, Nat.cast_pow, Nat.cast_ofNat,
    mul_assoc, ← zpow_natCast, ← zpow_add₀ two_ne_zero,
    show ((52 - n.log2 : Nat) : Int) + (n.log2 - 52) = 0 by omega, zpow_zero, mul_one]

theorem Binary.ofNat_e_bounds {n : Nat} (hn : 0 < n) (hlt : n < 2 ^ 53) :
    -52 ≤ (Binary.ofNat n).e ∧ (Binary.ofNat n).e ≤ 0 := by
  have hlog : n.log2 < 53 := (Nat.log2_lt hn.ne').mpr hlt
  simp only [Binary.ofNat]
  omega

/-- Rounding leaves a float as it is. -/
theorem roundWithAccuracy_canonical {b : Binary} (hb : b.Canonical) (s : Sign) :
    roundWithAccuracy Format.binary64 s b.m b.e .exact = .finite s b.m b.e hb.pos := by
  simp only [roundWithAccuracy, shiftToTargetExponent_canonical hb,
    ExtendedMantissa.roundedMantissa, ExtendedMantissa.accuracy, Accuracy.roundToNearestEven,
    hb.pos.ne', dite_false]

/-- The exponent of an integer is lowered until the mantissa has its digits. -/
theorem round_ofNat {n : Nat} (hn : 0 < n) (hlt : n < 2 ^ 53) (s : Sign) :
    UnpackedFloat.round Format.binary64 s n 0 = .finite s (Binary.ofNat n).m (Binary.ofNat n).e
      (Binary.canonical_ofNat hn hlt).pos := by
  have hlog : n.log2 < 53 := (Nat.log2_lt hn.ne').mpr hlt
  have hshift : (0 - max ((n.log2 : Int) + 0 - 52) (-1074)).toNat = 52 - n.log2 := by omega
  have he : (0 : Int) - (52 - n.log2 : Nat) = n.log2 - 52 := by omega
  simp only [UnpackedFloat.round, targetExponent_eq, decreaseExponent, hshift, he]
  exact roundWithAccuracy_canonical (Binary.canonical_ofNat hn hlt) s

theorem unpack_toFloat {n : Nat} (hn : 0 < n) (hlt : n < 2 ^ 53) :
    n.toUInt64.toFloat.toModel.unpack = .finite .positive (Binary.ofNat n).m (Binary.ofNat n).e
      (Binary.canonical_ofNat hn hlt).pos := by
  have hb := Binary.canonical_ofNat hn hlt
  have hmod : n.toUInt64.toNat = n := by
    rw [UInt64.toNat_ofNat']
    omega
  have hround : UnpackedFloat.ofUInt64 Format.binary64 n.toUInt64 =
      .finite .positive (Binary.ofNat n).m (Binary.ofNat n).e hb.pos := by
    rw [UnpackedFloat.ofUInt64, UnpackedFloat.ofNat, UnpackedFloat.ofInt,
      UnpackedFloat.normalize, hmod, Int.compare_eq_gt.mpr (by omega)]
    exact round_ofNat hn hlt .positive
  show (Float.Model.pack _).unpack = _
  rw [hround]
  exact unpack_pack hb (by have := (Binary.ofNat_e_bounds hn hlt).2; omega) _

/-- The canonical form of a power of ten that is a float: a power of five of at most 53 binary
digits, and the power of two in its exponent. -/
def Binary.tenPow (k : Nat) : Binary := ⟨(Binary.ofNat (5 ^ k)).m, (Binary.ofNat (5 ^ k)).e + k⟩

theorem five_pow_lt {k : Nat} (hk : k < 23) : 5 ^ k < 2 ^ 53 := calc
  5 ^ k ≤ 5 ^ 22 := Nat.pow_le_pow_right (by decide) (by omega)
  _ < 2 ^ 53 := by decide

theorem Binary.canonical_tenPow {k : Nat} (hk : k < 23) : (Binary.tenPow k).Canonical := by
  have hpos : 0 < 5 ^ k := by positivity
  have hb := Binary.canonical_ofNat hpos (five_pow_lt hk)
  have hbounds := Binary.ofNat_e_bounds hpos (five_pow_lt hk)
  refine ⟨hb.pos, hb.lt, ?_, .inr (hb.full.resolve_left (by omega))⟩
  simp only [Binary.tenPow]
  omega

theorem Binary.value_tenPow {k : Nat} (hk : k < 23) : (Binary.tenPow k).value = 10 ^ k := by
  have hvalue := Binary.value_ofNat (five_pow_lt hk)
  rw [Binary.value] at hvalue
  rw [Binary.value, Binary.tenPow, zpow_add₀ two_ne_zero, ← mul_assoc, hvalue, zpow_natCast,
    Nat.cast_pow, Nat.cast_ofNat, ← mul_pow]
  norm_num

/-- The table of powers of ten has their canonical forms. -/
theorem powerOfTen_eq : ∀ k : Fin Float.exactlyRepresentablePowersOfTen.size,
    Float.exactlyRepresentablePowersOfTen[k].toModel = .pack
      (.finite .positive (Binary.tenPow k).m (Binary.tenPow k).e
        (Binary.canonical_tenPow k.isLt).pos) := by
  decide +kernel

theorem unpack_powerOfTen {k : Nat} (hk : k < Float.exactlyRepresentablePowersOfTen.size) :
    Float.exactlyRepresentablePowersOfTen[k].toModel.unpack =
      .finite .positive (Binary.tenPow k).m (Binary.tenPow k).e
        (Binary.canonical_tenPow hk).pos := by
  have hb : (Binary.tenPow k).Canonical := Binary.canonical_tenPow hk
  have hbounds := Binary.ofNat_e_bounds (show 0 < 5 ^ k by positivity) (five_pow_lt hk)
  have hk' : k < 23 := hk
  rw [show Float.exactlyRepresentablePowersOfTen[k].toModel = _ from powerOfTen_eq ⟨k, hk⟩]
  refine unpack_pack hb ?_ .positive
  simp only [Binary.tenPow]
  omega

/-! ## Fractions -/

/-- Nothing near a float is so small that its power of ten is out of bounds. -/
theorem exponent_lt_of_near {b : Binary} (hb : b.Canonical) {n k : Nat}
    (hnear : b.Near (n / 10 ^ k)) : k < n.log2 + 1076 := by
  have hpos : (1 : ℚ) ≤ b.m := by exact_mod_cast hb.pos
  have hunit : (2 : ℚ) ^ (-1074 : Int) ≤ 2 ^ b.e := zpow_le_zpow_right₀ one_le_two hb.le
  have hlow : (2 : ℚ) ^ (-1075 : Int) ≤ n / 10 ^ k := calc
    (2 : ℚ) ^ (-1075 : Int) = 1 / 2 * 2 ^ (-1074 : Int) := by
      rw [show (-1075 : Int) = -1 + -1074 by norm_num, zpow_add₀ two_ne_zero]
      norm_num
    _ ≤ (b.m - 1 / 2) * 2 ^ b.e := by
      apply mul_le_mul _ hunit (zpow_pos two_pos _).le
      · linarith
      · linarith
    _ ≤ n / 10 ^ k := hnear.half_le.1
  have hhigh : (n / 10 ^ k : ℚ) < 2 ^ (n.log2 + 1 - k : Int) := calc
    (n / 10 ^ k : ℚ) ≤ n / 2 ^ k := by
      apply div_le_div_of_nonneg_left (Nat.cast_nonneg n) (by positivity)
      exact pow_le_pow_left₀ (by norm_num) (by norm_num) k
    _ < 2 ^ (n.log2 + 1 : Nat) / 2 ^ k := by
      apply div_lt_div_of_pos_right _ (by positivity)
      exact_mod_cast Nat.lt_log2_self
    _ = 2 ^ (n.log2 + 1 - k : Int) := by
      rw [zpow_sub₀ two_ne_zero]
      norm_cast
  have := lt_of_two_zpow hlow hhigh
  omega

/-- A fraction is read as the float that it is near to. -/
theorem ofScientific_near {b : Binary} (hb : b.Canonical) {n k : Nat} (hn : 0 < n) (hk : 0 < k)
    (hnear : b.Near (n / 10 ^ k)) :
    Float.ofScientific n true k = .ofModel (.pack (.finite .positive b.m b.e hb.pos)) := by
  unfold Float.ofScientific
  split
  · -- the digits and the power of ten are floats, and these are divided
    rename_i h
    have hsize : k < Float.exactlyRepresentablePowersOfTen.size := Nat.lt_succ_of_le h.2
    show Float.ofModel (.pack (UnpackedFloat.div Format.binary64 n.toUInt64.toFloat.toModel.unpack
      Float.exactlyRepresentablePowersOfTen[k].toModel.unpack)) = _
    rw [unpack_powerOfTen hsize, unpack_toFloat hn h.1]
    refine congrArg (fun u => Float.ofModel (.pack u)) (div_near hb _ _ ?_)
    rw [← Binary.value, ← Binary.value, Binary.value_ofNat h.1, Binary.value_tenPow hsize]
    exact hnear
  · -- they are divided as integers, unless the power of ten is out of bounds
    have hlt := exponent_lt_of_near hb hnear
    have hpow : (((10 ^ k : Nat) : ℚ) * 2 ^ (0 : Int)) = 10 ^ k := by norm_num
    have hneg : Int.negOfNat k = -(k : Int) := Int.negOfNat_eq
    simp only [if_true, Float.Model.ofScientific, UnpackedFloat.ofScientific, hn.ne', dite_false,
      hneg]
    rw [if_neg (by omega), if_neg (by omega), if_neg (by omega)]
    refine congrArg (fun u => Float.ofModel (.pack u)) (div_near hb _ _ ?_)
    rw [neg_neg, Int.toNat_natCast, hpow, zpow_zero, mul_one]
    exact hnear

end MiniLisp.Decimal
