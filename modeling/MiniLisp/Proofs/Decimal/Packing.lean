import MiniLisp.Proofs.Decimal.Rounding

/-!
# Packed floats

A float of the language is 64 bits: a sign, an exponent and a mantissa without its leading
digit. Packing undoes unpacking (`pack_unpack`). A finite float that is not zero is unpacked to
its canonical form and no other (`canonical_of_unpack`), and unpacking undoes packing of such a
form if it is not too large (`unpack_pack`).
-/

namespace MiniLisp.Decimal

open Float.Model Float.Model.UnpackedFloat

/-- The leading digit that is not kept. -/
theorem toNat_leading_append (m : BitVec 52) : (1#1 ++ m).toNat = 2 ^ 52 + m.toNat := by
  rw [BitVec.toNat_append, ← Nat.shiftLeft_add_eq_or_of_lt m.isLt]
  rfl

/-! ## Finite floats -/

/-- The float whose exponent and mantissa fields these are. -/
def ofFields (e : BitVec 11) (m : BitVec 52) : Binary :=
  if e = 0#11 then ⟨m.toNat, -1074⟩ else ⟨2 ^ 52 + m.toNat, e.toNat - 1075⟩

theorem ofFields_zero (m : BitVec 52) : ofFields 0#11 m = ⟨m.toNat, -1074⟩ := if_pos rfl

theorem ofFields_pos {e : BitVec 11} (he : e ≠ 0#11) (m : BitVec 52) :
    ofFields e m = ⟨2 ^ 52 + m.toNat, e.toNat - 1075⟩ := if_neg he

theorem unpack_packComponents (s : Sign) (e : BitVec 11) (m : BitVec 52) :
    UnpackedFloat.unpack Format.binary64 (packComponents Format.binary64 s e m) =
      if e = -1#11 then (if m = 0#52 then .infinity s else .notANumber)
      else if h : 0 < (ofFields e m).m then
        .finite s (ofFields e m).m (ofFields e m).e h
      else .zero s := by
  simp only [UnpackedFloat.unpack, unpackMantissa_packComponents, unpackExponent_packComponents,
    unpackSign_packComponents, Sign.ofBitVec_toBitVec]
  by_cases hone : e = -1#11
  · rw [if_pos hone, if_pos hone]
  rw [if_neg hone, if_neg hone]
  by_cases hzero : e = 0#11
  · subst hzero
    rw [if_pos rfl]
    by_cases hm : m = 0#52
    · subst hm
      rfl
    · have hpos : 0 < (ofFields 0#11 m).m :=
        Nat.pos_of_ne_zero fun h => hm (BitVec.eq_of_toNat_eq h)
      rw [dif_neg hm, dif_pos hpos]
      rfl
  · rw [if_neg hzero, dif_pos (by rw [ofFields_pos hzero]; positivity)]
    simp only [ofFields_pos hzero, toNat_leading_append]
    rfl

theorem toNat_ne_of_ne_neg_one {e : BitVec 11} (he : e ≠ -1#11) : e.toNat < 2047 := by
  have hlt := e.isLt
  have hne : e.toNat ≠ 2047 := fun h => he (BitVec.eq_of_toNat_eq h)
  omega

theorem canonical_ofFields {e : BitVec 11} {m : BitVec 52} (he : e ≠ -1#11)
    (hpos : 0 < (ofFields e m).m) : (ofFields e m).Canonical ∧ (ofFields e m).e ≤ 971 := by
  have hm := m.isLt
  have he' := toNat_ne_of_ne_neg_one he
  by_cases hzero : e = 0#11
  · subst hzero
    have hlt : m.toNat < 2 ^ 53 := Nat.lt_trans hm (by decide)
    exact ⟨⟨hpos, hlt, le_rfl, .inl rfl⟩, show (-1074 : Int) ≤ 971 by decide⟩
  · have hne : e.toNat ≠ 0 := fun h => hzero (BitVec.eq_of_toNat_eq h)
    rw [ofFields_pos hzero] at hpos ⊢
    refine ⟨⟨hpos, ?_, ?_, .inr (Nat.le_add_right _ _)⟩, ?_⟩ <;> simp only <;> omega

theorem exists_ofFields {b : Binary} (hb : b.Canonical) (hmax : b.e ≤ 971) :
    ∃ e m, e ≠ -1#11 ∧ b = ofFields e m := by
  obtain ⟨m, e⟩ := b
  obtain ⟨hpos, hlt, hle, hfull⟩ := hb
  simp only at hpos hlt hle hfull hmax
  by_cases hm : m < 2 ^ 52
  · obtain rfl : e = -1074 := by omega
    refine ⟨0#11, BitVec.ofNat 52 m, by decide, ?_⟩
    rw [ofFields_zero, BitVec.toNat_ofNat, Nat.mod_eq_of_lt hm]
  · have he : (BitVec.ofNat 11 (e + 1075).toNat).toNat = (e + 1075).toNat := by
      rw [BitVec.toNat_ofNat, Nat.mod_eq_of_lt (by omega)]
    refine ⟨BitVec.ofNat 11 (e + 1075).toNat, BitVec.ofNat 52 m, ?_, ?_⟩
    · intro h
      have := congrArg BitVec.toNat h
      rw [he, show (-1#11).toNat = 2047 from rfl] at this
      omega
    · rw [ofFields_pos, he, BitVec.toNat_ofNat, Binary.mk.injEq]
      · omega
      · intro h
        have := congrArg BitVec.toNat h
        rw [he, BitVec.toNat_zero] at this
        omega

/-! ## Packing and unpacking -/

/-- Packing undoes unpacking. -/
theorem pack_unpack (x : Float.Model) : Float.Model.pack x.unpack = x := by
  obtain ⟨bits, hvalid⟩ := x
  have hbits := pack_unpack_of_valid hvalid
  simp only [Float.Model.pack, Float.Model.unpack, hbits]

/-- A float that is unpacked to a mantissa and an exponent has the canonical ones. -/
theorem canonical_of_unpack {x : Float.Model} {s : Sign} {m : Nat} {e : Int} {hm : 0 < m}
    (h : x.unpack = .finite s m e hm) : (⟨m, e⟩ : Binary).Canonical ∧ e ≤ 971 := by
  have hparts := @packComponents_unpackSign_unpackExponent_unpackMantissa Format.binary64
    x.toBits.toBitVec
  rw [Float.Model.unpack, ← hparts, unpack_packComponents] at h
  split at h
  · split at h <;> cases h
  · rename_i he
    split at h
    · rename_i hpos
      obtain ⟨hcanonical, hmax⟩ := canonical_ofFields he hpos
      cases h
      exact ⟨hcanonical, hmax⟩
    · cases h

/-- Unpacking undoes packing of a canonical form that is not too large. -/
theorem unpack_pack {b : Binary} (hb : b.Canonical) (hmax : b.e ≤ 971) (s : Sign) :
    (Float.Model.pack (.finite s b.m b.e hb.pos)).unpack = .finite s b.m b.e hb.pos := by
  have hpos := hb.pos
  obtain ⟨e, m, he, rfl⟩ := exists_ofFields hb hmax
  have hunpack : UnpackedFloat.unpack Format.binary64 (packComponents Format.binary64 s e m) =
      .finite s (ofFields e m).m (ofFields e m).e hpos := by
    rw [unpack_packComponents, if_neg he, dif_pos hpos]
  have hvalid : Format.binary64.Valid (packComponents Format.binary64 s e m) :=
    ⟨fun hone => absurd (unpackExponent_packComponents.symm.trans hone) he⟩
  show UnpackedFloat.unpack Format.binary64 (UnpackedFloat.pack Format.binary64 _) = _
  rw [← hunpack, pack_unpack_of_valid hvalid]

end MiniLisp.Decimal
