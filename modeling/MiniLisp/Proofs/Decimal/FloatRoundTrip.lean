import MiniLisp.Node.Source
import MiniLisp.Proofs.Decimal.ReadFloat
import MiniLisp.Proofs.Decimal.ShortestDecimal
import MiniLisp.Proofs.Source.TokenGrammar

/-!
# Floats are read as they were written

Without an exponent, a float's text is digits, a point and further digits, so it is one token; and
it stands for the shortest decimal of the float, so it is read as that float again (`write_spec`).
-/

namespace MiniLisp.Decimal

open Float.Model Float.Model.UnpackedFloat

/-! ## Digits -/

theorem ofDigits_eq (cs : List Char) : ofDigits cs = Nat.ofDigitChars 10 cs 0 := by
  rw [ofDigits, Nat.ofDigitChars_eq_foldl]
  rfl

theorem isDigit_toDigits (n : Nat) : ∀ c ∈ Nat.toDigits 10 n, c.isDigit = true := fun _ hc =>
  Nat.isDigit_of_mem_toDigits (by decide) (by decide) hc

theorem ofDigits_append_zeros (cs : List Char) (k : Nat) :
    ofDigits (cs ++ List.replicate k '0') = ofDigits cs * 10 ^ k := by
  rw [ofDigits_eq, ofDigits_eq, Nat.ofDigitChars_append, Nat.ofDigitChars_replicate_zero,
    Nat.mul_comm]

theorem ofDigits_zeros_append (k : Nat) (cs : List Char) :
    ofDigits (List.replicate k '0' ++ cs) = ofDigits cs := by
  rw [ofDigits_eq, ofDigits_eq, Nat.ofDigitChars_append, Nat.ofDigitChars_replicate_zero,
    Nat.mul_zero]

/-- What is left when the zeros at the end of a text are dropped, and how many there were. -/
theorem exists_zeros_at_end (cs : List Char) :
    ∃ k, cs = (cs.reverse.dropWhile (· == '0')).reverse ++ List.replicate k '0' := by
  refine ⟨(cs.reverse.takeWhile (· == '0')).length, ?_⟩
  have hrun : cs.reverse.takeWhile (· == '0') =
      List.replicate (cs.reverse.takeWhile (· == '0')).length '0' := by
    refine List.eq_replicate_of_mem fun c hc => ?_
    simpa using List.mem_takeWhile_imp hc
  rw [← List.reverse_replicate, ← hrun, ← List.reverse_append, List.takeWhile_append_dropWhile,
    List.reverse_reverse]

/-- The digits that stand for a number are its digits less the zeros at their end, which the
power of the first digit makes up for. -/
theorem spread_spec {s : Scaled} (hs : 0 < s.digits) :
    s.spread.1 ≠ [] ∧ (∀ c ∈ s.spread.1, c.isDigit = true) ∧
    (ofDigits s.spread.1 * 10 ^ (s.spread.2 + 1 - s.spread.1.length) : ℚ) =
      s.digits * 10 ^ s.exponent := by
  obtain ⟨ds, hds⟩ : ∃ ds, Nat.toDigits 10 s.digits = ds := ⟨_, rfl⟩
  obtain ⟨k, hzeros⟩ : ∃ k, ds = s.spread.1 ++ List.replicate k '0' := by
    rw [← hds]
    exact exists_zeros_at_end _
  have hvalue : ofDigits s.spread.1 * 10 ^ k = s.digits := by
    rw [← ofDigits_append_zeros, ← hzeros, ← hds, ofDigits_eq, Nat.ofDigitChars_ten_toDigits]
  have hpower : s.spread.2 + 1 - s.spread.1.length = k + s.exponent := by
    have hlen := congrArg List.length hzeros
    rw [List.length_append, List.length_replicate] at hlen
    have hspread : s.spread.2 = s.exponent + ds.length - 1 := by
      rw [← hds]
      rfl
    omega
  refine ⟨?_, ?_, ?_⟩
  · intro hnil
    rw [hnil, show ofDigits [] = 0 from rfl, Nat.zero_mul] at hvalue
    omega
  · intro c hc
    have hmem : c ∈ Nat.toDigits 10 s.digits := by
      rw [hds, hzeros]
      exact List.mem_append_left _ hc
    exact isDigit_toDigits s.digits c hmem
  · rw [hpower, zpow_add₀ (by norm_num), zpow_natCast, ← mul_assoc]
    congr 1
    exact_mod_cast hvalue

theorem isDigit_replicate_zero (k : Nat) : ∀ c ∈ List.replicate k '0', c.isDigit = true := by
  intro c hc
  rw [List.eq_of_mem_replicate hc]
  rfl

/-- Dividing by a power of ten lowers the exponent. -/
theorem div_tenPow (x : ℚ) (k : Nat) : x / 10 ^ k = x * 10 ^ (-k : Int) := by
  rw [zpow_neg, zpow_natCast, div_eq_mul_inv]

/-- Digits with a point among them stand for the same number. -/
theorem positional_spec {ds : List Char} (hne : ds ≠ []) (hds : ∀ c ∈ ds, c.isDigit = true)
    (power : Int) :
    ∃ whole fraction, positional ds power = whole ++ '.' :: fraction ∧
      (whole ≠ [] ∧ ∀ c ∈ whole, c.isDigit = true) ∧
      (fraction ≠ [] ∧ ∀ c ∈ fraction, c.isDigit = true) ∧
      (ofDigits (whole ++ fraction) / 10 ^ fraction.length : ℚ) =
        ofDigits ds * 10 ^ (power + 1 - ds.length) := by
  unfold positional
  split
  · -- zeros stand between the point and the digits
    rename_i hneg
    refine ⟨['0'], List.replicate (-power - 1).toNat '0' ++ ds, by simp, ?_, ?_, ?_⟩
    · exact ⟨by simp, isDigit_replicate_zero 1⟩
    · refine ⟨by simp [hne], List.forall_mem_append.mpr ⟨isDigit_replicate_zero _, hds⟩⟩
    · rw [show ['0'] = List.replicate 1 '0' from rfl, ofDigits_zeros_append,
        ofDigits_zeros_append, div_tenPow, List.length_append, List.length_replicate]
      congr 2
      omega
  · simp only
    split
    · -- zeros stand between the digits and the point
      rename_i hneg hle
      refine ⟨ds ++ List.replicate (power.toNat + 1 - ds.length) '0', ['0'], by simp, ?_, ?_, ?_⟩
      · exact ⟨by simp [hne], List.forall_mem_append.mpr ⟨hds, isDigit_replicate_zero _⟩⟩
      · exact ⟨by simp, isDigit_replicate_zero 1⟩
      · rw [show ['0'] = List.replicate 1 '0' from rfl, ofDigits_append_zeros,
          ofDigits_append_zeros, List.length_replicate, Nat.cast_mul, Nat.cast_mul, Nat.cast_pow,
          Nat.cast_pow, Nat.cast_ofNat, mul_div_cancel_right₀ _ (by norm_num), ← zpow_natCast]
        congr 2
        omega
    · -- the point stands among the digits
      rename_i hneg hlt
      refine ⟨ds.take (power.toNat + 1), ds.drop (power.toNat + 1), rfl, ?_, ?_, ?_⟩
      · exact ⟨by simp [hne], fun c hc => hds c (List.mem_of_mem_take hc)⟩
      · refine ⟨fun h => ?_, fun c hc => hds c (List.mem_of_mem_drop hc)⟩
        rw [List.drop_eq_nil_iff] at h
        omega
      · rw [List.take_append_drop, div_tenPow, List.length_drop]
        congr 2
        omega

/-! ## Reading the text -/

theorem unsigned_digits {d : Char} (hd : d.isDigit = true) (cs : List Char) :
    unsigned (d :: cs) = d :: cs := by
  unfold unsigned
  split
  · rename_i heq
    cases heq
    cases hd
  · rename_i heq
    cases heq
    cases hd
  · rfl

theorem hasMinus_digits {d : Char} (hd : d.isDigit = true) (cs : List Char) :
    hasMinus (d :: cs) = false := by
  have hne : d ≠ '-' := by
    rintro rfl
    cases hd
  simpa [hasMinus] using hne

/-- A number is split at its point. -/
theorem split_at_point {whole : List Char} (hwhole : ∀ c ∈ whole, c.isDigit = true)
    (fraction : List Char) :
    (whole ++ '.' :: fraction).takeWhile (· ≠ '.') = whole ∧
      ((whole ++ '.' :: fraction).dropWhile (· ≠ '.')).drop 1 = fraction := by
  have hrun : ∀ c ∈ whole, decide (c ≠ '.') = true := by
    intro c hc
    refine decide_eq_true fun h => ?_
    have hdigit := hwhole c hc
    rw [h] at hdigit
    cases hdigit
  have hhalts : Halts (fun c => decide (c ≠ '.')) ('.' :: fraction) := halts_cons rfl _
  rw [takeWhile_append_halts hrun hhalts, dropWhile_append_halts hrun hhalts]
  exact ⟨rfl, rfl⟩

/-- Digits with a point among them are read as the number they stand for, and a minus sign
before them as one. -/
theorem readFloat_digits {whole : List Char} (hne : whole ≠ [])
    (hwhole : ∀ c ∈ whole, c.isDigit = true) (fraction : List Char) :
    readFloat (whole ++ '.' :: fraction) =
        Float.ofScientific (ofDigits (whole ++ fraction)) true fraction.length ∧
      readFloat ('-' :: (whole ++ '.' :: fraction)) =
        -Float.ofScientific (ofDigits (whole ++ fraction)) true fraction.length := by
  obtain ⟨htake, hdrop⟩ := split_at_point hwhole fraction
  obtain ⟨d, ds, rfl⟩ := List.exists_cons_of_ne_nil hne
  have hd : d.isDigit = true := hwhole d List.mem_cons_self
  have hunsigned : unsigned (d :: ds ++ '.' :: fraction) = d :: ds ++ '.' :: fraction :=
    unsigned_digits hd _
  have hminus : hasMinus (d :: ds ++ '.' :: fraction) = false := hasMinus_digits hd _
  have hunsigned' : unsigned ('-' :: (d :: ds ++ '.' :: fraction)) = d :: ds ++ '.' :: fraction :=
    rfl
  have hminus' : hasMinus ('-' :: (d :: ds ++ '.' :: fraction)) = true := rfl
  constructor
  · simp only [readFloat, hunsigned, htake, hdrop, hminus, Bool.false_eq_true, if_false]
  · simp only [readFloat, hunsigned', htake, hdrop, hminus', if_true]

/-! ## Writing and reading -/

/-- The text of a positive float without its sign: digits, a point and digits, which are read
as that float. -/
theorem magnitude_spec {b : Binary} (hb : b.Canonical) (hmax : b.e ≤ 971) (s : Sign) :
    ∃ whole fraction,
      sourceFloats.magnitude (.finite s b.m b.e hb.pos) = whole ++ '.' :: fraction ∧
      (whole ≠ [] ∧ ∀ c ∈ whole, c.isDigit = true) ∧ (∀ c ∈ fraction, c.isDigit = true) ∧
      Float.ofScientific (ofDigits (whole ++ fraction)) true fraction.length =
        .ofModel (.pack (.finite .positive b.m b.e hb.pos)) := by
  have hnear := Binary.shortest_near hb hmax
  have hpos := Binary.shortest_pos hb hmax
  obtain ⟨hne, hds, hspread⟩ := spread_spec (Binary.shortest_digits_pos hb hmax)
  obtain ⟨whole, fraction, htext, hwhole, hfraction, hvalue⟩ :=
    positional_spec hne hds b.shortest.spread.2
  rw [hspread] at hvalue
  refine ⟨whole, fraction, htext, hwhole, hfraction.2, ?_⟩
  rw [← hvalue] at hnear hpos
  refine ofScientific_near hb ?_ (List.length_pos_of_ne_nil hfraction.1) hnear
  refine Nat.pos_of_ne_zero fun h => ?_
  rw [h, Nat.cast_zero, zero_div] at hpos
  exact lt_irrefl _ hpos

/-- Negating a positive float changes its sign only. -/
theorem neg_pack {b : Binary} (hb : b.Canonical) (hmax : b.e ≤ 971) :
    -Float.ofModel (.pack (.finite .positive b.m b.e hb.pos)) =
      .ofModel (.pack (.finite .negative b.m b.e hb.pos)) := by
  show Float.ofModel (.pack (Float.Model.pack _).unpack.neg) = _
  rw [unpack_pack hb hmax]
  rfl

/-- The two zeros keep their signs. -/
theorem write_zero : ∀ s : Sign, readFloat (String.ofList (if FloatLayout.hasMinus (.zero s) then
      '-' :: sourceFloats.magnitude (.zero s) else sourceFloats.magnitude (.zero s))).toList =
    .ofModel (.pack (.zero s))
  | .positive => by decide +kernel
  | .negative => by decide +kernel

/-- The text of a finite float is one of the grammar's, and is read as that float. -/
theorem write_spec {x : Float} (hx : x.isFinite = true) :
    Lexeme.Fits .float (sourceFloats.write x).toList ∧
      readFloat (sourceFloats.write x).toList = x := by
  have hfinite : x.toModel.unpack.isFinite = true := hx
  cases hu : x.toModel.unpack with
  | infinity s => simp [hu, UnpackedFloat.isFinite] at hfinite
  | notANumber => simp [hu, UnpackedFloat.isFinite] at hfinite
  | zero s =>
    have hzero : readFloat (sourceFloats.write x).toList = .ofModel (.pack (.zero s)) := by
      rw [FloatLayout.write, hu]
      exact write_zero s
    have hpack : Float.Model.pack (.zero s) = x.toModel := by rw [← hu, pack_unpack]
    refine ⟨?_, hzero.trans (congrArg Float.ofModel hpack)⟩
    rw [FloatLayout.write, hu, String.toList_ofList]
    have hfloat : Lexeme.Unsigned .float (['0'] ++ '.' :: ['0']) :=
      .float (by simp) (isDigit_replicate_zero 1) (isDigit_replicate_zero 1)
    cases s with
    | positive => exact .unsigned hfloat
    | negative => exact .signed (.inr rfl) hfloat
  | finite s m e hm =>
    obtain ⟨hb, hmax⟩ := canonical_of_unpack hu
    have hpack : Float.Model.pack (.finite s m e hm) = x.toModel := by rw [← hu, pack_unpack]
    obtain ⟨whole, fraction, htext, ⟨hne, hwhole⟩, hfraction, hread⟩ := magnitude_spec hb hmax s
    obtain ⟨hplus, hminus⟩ := readFloat_digits hne hwhole fraction
    have hfloat : Lexeme.Unsigned .float (whole ++ '.' :: fraction) := .float hne hwhole hfraction
    rw [FloatLayout.write, hu, String.toList_ofList, htext]
    cases s with
    | positive =>
      refine ⟨.unsigned hfloat, ?_⟩
      exact hplus.trans (hread.trans (congrArg Float.ofModel hpack))
    | negative =>
      refine ⟨.signed (.inr rfl) hfloat, ?_⟩
      refine hminus.trans ?_
      rw [hread, neg_pack hb hmax]
      exact congrArg Float.ofModel hpack

end MiniLisp.Decimal
