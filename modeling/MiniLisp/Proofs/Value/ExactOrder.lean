import MiniLisp.Proofs.Value.NumericTower

/-!
# The order of numbers

A number that is not undefined has an exact value: a real number, or one of the two ends of their
line. Numbers are related as their exact values are (`Value.ordered_iff_holds`), and it does not
matter which of the two sides is asked: one of them knows, and what it says holds of both
(`Value.numbersRelated?_of_numbers`).
-/

namespace MiniLisp

/-! ## Exact values -/

open Float.Model in
/-- The exact value of a float, unless it is undefined. -/
noncomputable def unpackedValue? : UnpackedFloat → Option EReal
  | .notANumber => none
  | .infinity .positive => some ⊤
  | .infinity .negative => some ⊥
  | .zero _ => some 0
  | .finite s m e _ => some (s.apply m * 2 ^ e : ℝ)

namespace Value

/-- The exact value of a number, unless it is undefined; truth values count as one and zero. -/
noncomputable def exactValue? : Value → Option EReal
  | .int n => some (n : ℝ)
  | .bool b => some (if b then 1 else 0)
  | .float x => unpackedValue? x.toModel.unpack
  | _ => none

/-- The value is a float without an exact value. -/
inductive Undefined : Value → Prop where
  | float {x : Float} (h : x.isNaN = true) : Undefined (.float x)

end Value

/-- The relation between exact values. -/
def RelationalOp.Orders : RelationalOp → EReal → EReal → Prop
  | equal, x, y => x = y
  | greater, x, y => y < x
  | less, x, y => x < y

section Orders

variable {op : RelationalOp} {x y z : EReal}

theorem RelationalOp.orders_swap : op.swap.Orders y x ↔ op.Orders x y := by
  cases op with
  | equal => exact eq_comm
  | greater => exact Iff.rfl
  | less => exact Iff.rfl

theorem RelationalOp.Orders.trans (h : op.Orders x y) (h' : op.Orders y z) : op.Orders x z := by
  cases op with
  | equal => exact Eq.trans h h'
  | greater => exact lt_trans h' h
  | less => exact lt_trans h h'

end Orders

/-! ## Places -/

/-- The exact value that is at a place. -/
noncomputable def Magnitude.value : Magnitude → EReal
  | .below => ⊥
  | .finite units => (units * 2 ^ (-1074 : Int) : ℝ)
  | .above => ⊤

namespace Magnitude

theorem value_finite_lt_iff {a b : Int} :
    (Magnitude.finite a).value < (Magnitude.finite b).value ↔ a < b := by
  have hunit : (0 : ℝ) < 2 ^ (-1074 : Int) := by positivity
  rw [value, value, EReal.coe_lt_coe_iff, mul_lt_mul_iff_left₀ hunit, Int.cast_lt]

theorem value_lt_iff {p q : Magnitude} : p.value < q.value ↔ p.lt q = true := by
  cases p with
  | below =>
    cases q with
    | below => simp [lt]
    | finite b => exact iff_of_true (EReal.bot_lt_coe _) rfl
    | above => exact iff_of_true bot_lt_top rfl
  | finite a =>
    cases q with
    | below => simp [value, lt]
    | finite b => simp [value_finite_lt_iff, lt]
    | above => exact iff_of_true (EReal.coe_lt_top _) rfl
  | above => cases q <;> simp [value, lt]

/-- Different places have different values, since one of them lies before the other. -/
theorem value_eq_iff {p q : Magnitude} : p.value = q.value ↔ p = q := by
  refine ⟨fun h => ?_, congrArg value⟩
  have hpq : ¬ p.lt q = true := fun hlt => (value_lt_iff.mpr hlt).ne h
  have hqp : ¬ q.lt p = true := fun hlt => (value_lt_iff.mpr hlt).ne' h
  cases p <;> cases q <;> simp_all [lt]
  omega

theorem holds_iff {op : RelationalOp} {p q : Magnitude} :
    p.holds op q = true ↔ op.Orders p.value q.value := by
  cases op with
  | equal => simp [holds, RelationalOp.Orders, value_eq_iff]
  | greater => exact value_lt_iff.symm
  | less => exact value_lt_iff.symm

end Magnitude

/-! ## Numbers -/

/-- So many units, times a power of two. -/
theorem value_units (n : Int) (k : Nat) :
    (Magnitude.finite (n * Nat.pow 2 k)).value = (n * 2 ^ (k + -1074 : Int) : ℝ) := by
  rw [Magnitude.value, EReal.coe_eq_coe_iff, zpow_add₀ two_ne_zero, zpow_natCast, ← mul_assoc]
  push_cast [Nat.pow_eq]
  rfl

theorem magnitude?_int (n : Int) :
    (Number.int n).magnitude?.map Magnitude.value = some ((n : ℝ) : EReal) := by
  unfold Number.magnitude?
  generalize hk : 1074 = k
  rw [Option.map_some, value_units, show (k + -1074 : Int) = 0 by omega, zpow_zero, mul_one]

open Float.Model in
theorem apply_mul (s : UnpackedFloat.Sign) (m k : Nat) :
    s.apply (m * k : Nat) = s.apply m * k := by
  cases s with
  | positive => exact Nat.cast_mul m k
  | negative => rw [UnpackedFloat.Sign.apply, Nat.cast_mul, ← neg_mul]; rfl

open Float.Model in
theorem unpackedValue?_eq (x : Float) :
    unpackedValue? x.toModel.unpack =
      (Number.floatMagnitude? x.toModel.unpack).map Magnitude.value := by
  cases h : x.toModel.unpack with
  | notANumber => rfl
  | infinity s => cases s <;> rfl
  | zero s => simp [unpackedValue?, Number.floatMagnitude?, Magnitude.value]
  | finite s m e hm =>
    have hunits : Number.floatMagnitude? (.finite s m e hm) =
        some (.finite (s.apply m * Nat.pow 2 (e + 1074).toNat)) := by
      rw [← apply_mul]
      cases s <;> rfl
    have hexponent : ((e + 1074).toNat + -1074 : Int) = e := by
      have hleast : -1074 ≤ e := (Decimal.canonical_of_unpack h).1.le
      omega
    rw [hunits, Option.map_some, value_units, hexponent, unpackedValue?]

namespace Value

variable {op : RelationalOp} {a b : Value}

theorem exactValue?_eq {m : Number} (h : a.number? = some m) :
    a.exactValue? = m.magnitude?.map Magnitude.value := by
  cases a with
  | int n =>
    cases h
    exact (magnitude?_int n).symm
  | bool b =>
    cases h
    rw [magnitude?_int]
    cases b <;> simp [exactValue?, Bool.toInt]
  | float x =>
    cases h
    exact unpackedValue?_eq x
  | _ => cases h

theorem IsNumber.of_exactValue? {x : EReal} (h : a.exactValue? = some x) : a.IsNumber := by
  cases a with
  | int n => exact .integer (.int n)
  | bool b => exact .integer (.bool b)
  | float x => exact .float x
  | _ => cases h

theorem undefined_float_iff {x : Float} : (Value.float x).Undefined ↔ x.isNaN = true :=
  ⟨fun ⟨h⟩ => h, .float⟩

/-- A number has an exact value unless it is undefined. -/
theorem exists_exactValue? (ha : a.IsNumber) (hdefined : ¬ a.Undefined) :
    ∃ x, a.exactValue? = some x := by
  rcases ha with @⟨_, _, n | b⟩ | x
  · exact ⟨_, rfl⟩
  · exact ⟨_, rfl⟩
  · have hnan : ¬ x.toModel.unpack.isNaN = true := fun h => hdefined (.float h)
    rw [exactValue?]
    cases h : x.toModel.unpack with
    | notANumber => exact absurd (by rw [h]; rfl) hnan
    | infinity s => cases s <;> exact ⟨_, rfl⟩
    | zero s => exact ⟨_, rfl⟩
    | finite s m e hm => exact ⟨_, rfl⟩

theorem Undefined.exactValue?_eq_none (h : a.Undefined) : a.exactValue? = none := by
  obtain @⟨x, hx⟩ := h
  change x.toModel.unpack.isNaN = true at hx
  rw [exactValue?]
  cases hunpack : x.toModel.unpack with
  | notANumber => rfl
  | _ =>
    rw [hunpack] at hx
    cases hx

/-! ## Numbers that are related -/

/-- Both values have an exact value, and these are in the relation. -/
def Ordered (op : RelationalOp) (a b : Value) : Prop :=
  ∃ x y, a.exactValue? = some x ∧ b.exactValue? = some y ∧ op.Orders x y

theorem ordered_iff_holds {m n : Number} (ha : a.number? = some m) (hb : b.number? = some n) :
    m.holds op n = true ↔ Ordered op a b := by
  rw [Ordered, exactValue?_eq ha, exactValue?_eq hb, Number.holds]
  cases m.magnitude? with
  | none => simp
  | some p =>
    cases n.magnitude? with
    | none => simp
    | some q => simp [Magnitude.holds_iff]

theorem ordered_swap : Ordered op.swap b a ↔ Ordered op a b := by
  constructor
  · rintro ⟨y, x, hy, hx, h⟩
    exact ⟨x, y, hx, hy, RelationalOp.orders_swap.mp h⟩
  · rintro ⟨x, y, hx, hy, h⟩
    exact ⟨y, x, hy, hx, RelationalOp.orders_swap.mpr h⟩

theorem Ordered.trans {c : Value} (h : Ordered op a b) (h' : Ordered op b c) : Ordered op a c := by
  obtain ⟨x, y, hx, hy, hxy⟩ := h
  obtain ⟨y', z, hy', hz, hyz⟩ := h'
  obtain rfl : y = y' := Option.some.inj (hy.symm.trans hy')
  exact ⟨x, z, hx, hz, hxy.trans hyz⟩

theorem numbersRelated?_of_knows (op : RelationalOp) (h : a.knows b = true) :
    ∃ r, numbersRelated? op a b = some r ∧ (r = true ↔ Ordered op a b) := by
  obtain ⟨hnumber, hnumber'⟩ := isNumber_of_knows h
  obtain ⟨m, hm⟩ := hnumber.exists_number
  obtain ⟨n, hn⟩ := hnumber'.exists_number
  refine ⟨m.holds op n, ?_, ordered_iff_holds hm hn⟩
  rw [numbersRelated?, if_pos h, hm, hn]

theorem numbersRelated?_of_not_knows (op : RelationalOp) (h : ¬ a.knows b = true) :
    numbersRelated? op a b = none := if_neg h

/-- Of two numbers at least one knows the other. -/
theorem knows_or_knows (ha : a.IsNumber) (hb : b.IsNumber) :
    a.knows b = true ∨ b.knows a = true := by
  rcases ha with @⟨_, _, _ | _⟩ | _ <;> rcases hb with @⟨_, _, _ | _⟩ | _ <;>
    first | exact .inl rfl | exact .inr rfl

/-- Whichever of two numbers is asked first, the answer is the order of their exact values. -/
theorem numbersRelated?_of_numbers (op : RelationalOp) (ha : a.IsNumber) (hb : b.IsNumber) :
    ∃ r, (numbersRelated? op a b).or (numbersRelated? op.swap b a) = some r ∧
      (r = true ↔ Ordered op a b) := by
  by_cases h : a.knows b = true
  · obtain ⟨r, hr, hiff⟩ := numbersRelated?_of_knows op h
    exact ⟨r, by rw [hr]; rfl, hiff⟩
  · have h' : b.knows a = true := (knows_or_knows ha hb).resolve_left h
    obtain ⟨r, hr, hiff⟩ := numbersRelated?_of_knows op.swap h'
    exact ⟨r, by rw [numbersRelated?_of_not_knows op h, hr]; rfl, hiff.trans ordered_swap⟩

/-- Nothing is known of values of which one is no number. -/
theorem numbersRelated?_of_not_numbers (op : RelationalOp) (h : ¬ (a.IsNumber ∧ b.IsNumber)) :
    numbersRelated? op a b = none :=
  numbersRelated?_of_not_knows op fun hknows => h (isNumber_of_knows hknows)

end Value

end MiniLisp
