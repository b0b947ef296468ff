import MiniLisp.Proofs.Decimal.Packing
import MiniLisp.Proofs.Value.Faults

/-!
# The table of arithmetic

An operand knows some kinds of operands beside its own, and the left operand is asked before the
right one. The answers of the two make one table, `Computes`: integers and truth values give
integers, a float makes its partner a float, texts and lists are joined and repeated, and whatever
else stands together is an error that names the kinds (`compute_iff_computes`). No two operands
both know each other, so it does not matter which of them is asked first (`Computes.oneKnows`).
-/

namespace MiniLisp

namespace Value

/-! ## Numbers -/

/-- The value is the integer, or the truth value that counts as it. -/
inductive IsInteger : Value → Int → Prop where
  | int (n : Int) : IsInteger (.int n) n
  | bool (b : Bool) : IsInteger (.bool b) (if b then 1 else 0)

/-- The value is an integer, a truth value or a float. -/
inductive IsNumber : Value → Prop where
  | integer {v : Value} {n : Int} (h : v.IsInteger n) : IsNumber v
  | float (x : Float) : IsNumber (.float x)

/-- The value is zero; floats have a zero of either sign. -/
inductive IsZero : Value → Prop where
  | integer {v : Value} (h : v.IsInteger 0) : IsZero v
  | float {x : Float} (h : x = 0.0 ∨ x = -0.0) : IsZero (.float x)

/-- The integer is beyond the floats: the nearest of them is infinite. -/
def Overflows (n : Int) : Prop := (Float.ofInt n).isInf = true

/-- The value is the float, or an integer to which the float is the nearest. -/
inductive Converts : Value → Float → Prop where
  | float (x : Float) : Converts (.float x) x
  | integer {v : Value} {n : Int} (h : v.IsInteger n) (hn : ¬ Overflows n) :
      Converts v (Float.ofInt n)

/-- One of the values is a float, and the other the integer. -/
inductive Mixed : Value → Value → Int → Prop where
  | left {a : Value} {n : Int} (ha : a.IsInteger n) (y : Float) : Mixed a (.float y) n
  | right {b : Value} {n : Int} (x : Float) (hb : b.IsInteger n) : Mixed (.float x) b n

/-- What an operation makes of two integers; a quotient is cut toward zero. -/
inductive OfIntegers (m n : Int) : ArithmeticOp → Int → Prop where
  | sum : OfIntegers m n .plus (m + n)
  | difference : OfIntegers m n .minus (m - n)
  | product : OfIntegers m n .star (m * n)
  | quotient (hn : n ≠ 0) : OfIntegers m n .slash (m.tdiv n)

/-- What an operation makes of two floats. -/
inductive OfFloats (x y : Float) : ArithmeticOp → Float → Prop where
  | sum : OfFloats x y .plus (x + y)
  | difference : OfFloats x y .minus (x - y)
  | product : OfFloats x y .star (x * y)
  | quotient : OfFloats x y .slash (x / y)

/-! ## Texts and lists -/

/-- The value is a text or list of so many characters or items. -/
inductive HasSize : Value → Nat → Prop where
  | str (s : String) : HasSize (.str s) s.length
  | list (items : List Value) : HasSize (.list items) items.length

/-- The count is not one that 64 bits hold, or the host cannot build the result. -/
def TooOften [Host] (v : Value) (size : Nat) (count : Int) : Prop :=
  count < countRange.1 ∨ countRange.2 < count ∨ Host.builds v (size * count.toNat) = false

/-- What becomes of a text or list that is to be repeated. -/
inductive Repeats [Host] : Value → Int → Except Halt Value → Prop where
  | str {s : String} {n : Int} (h : ¬ TooOften (.str s) s.length n) :
      Repeats (.str s) n (.ok (.str (String.join (List.replicate n.toNat s))))
  | list {items : List Value} {n : Int} (h : ¬ TooOften (.list items) items.length n) :
      Repeats (.list items) n (.ok (.list (List.replicate n.toNat items).flatten))
  | refused {v : Value} {size : Nat} {n : Int} (hv : v.HasSize size) (h : TooOften v size n)
      (hn : ¬ LongInt n) : Repeats v n (.error (.error (.repetitionTooLarge n)))
  /-- The report would have to say the count, which has more digits than are written. -/
  | unreported {v : Value} {size : Nat} {n : Int} (hv : v.HasSize size) (h : TooOften v size n)
      (hn : LongInt n) : Repeats v n (.error (.fault .numberTooLong))

/-! ## All operands -/

/-- The operation is for operands of these kinds. -/
inductive Supported : ArithmeticOp → Value → Value → Prop where
  | numbers {a b : Value} (op : ArithmeticOp) (ha : a.IsNumber) (hb : b.IsNumber) :
      Supported op a b
  | strs (s t : String) : Supported .plus (.str s) (.str t)
  | lists (as bs : List Value) : Supported .plus (.list as) (.list bs)
  | before {v : Value} {size : Nat} (hv : v.HasSize size) (n : Int) : Supported .star v (.int n)
  | behind {v : Value} {size : Nat} (hv : v.HasSize size) (n : Int) : Supported .star (.int n) v

/-- The table: what an operation makes of a left and a right operand. -/
inductive Computes [Host] : ArithmeticOp → Value → Value → Except Halt Value → Prop where
  | integers {op : ArithmeticOp} {a b : Value} {m n k : Int} (ha : a.IsInteger m)
      (hb : b.IsInteger n) (h : OfIntegers m n op k) : Computes op a b (.ok (.int k))
  | floats {op : ArithmeticOp} {a b : Value} {x y z : Float}
      (hfloat : a = .float x ∨ b = .float y) (ha : a.Converts x) (hb : b.Converts y)
      (hdivisor : op = .slash → ¬ b.IsZero)
      (h : OfFloats x y op z) : Computes op a b (.ok (.float z))
  | divisionByZero {a b : Value} (ha : a.IsNumber) (hb : b.IsZero) :
      Computes .slash a b (.error (.error .divisionByZero))
  | beyondFloats {op : ArithmeticOp} {a b : Value} {n : Int} (h : Mixed a b n) (hn : Overflows n)
      (hdivisor : op = .slash → ¬ b.IsZero) : Computes op a b (.error (.error .beyondFloats))
  | strs (s t : String) : Computes .plus (.str s) (.str t) (.ok (.str (s ++ t)))
  | lists (as bs : List Value) : Computes .plus (.list as) (.list bs) (.ok (.list (as ++ bs)))
  | before {v : Value} {n : Int} {r : Except Halt Value} (h : Repeats v n r) :
      Computes .star v (.int n) r
  | behind {v : Value} {n : Int} {r : Except Halt Value} (h : Repeats v n r) :
      Computes .star (.int n) v r
  | unsupported {op : ArithmeticOp} {a b : Value} (h : ¬ Supported op a b) :
      Computes op a b (.error (.error (.operandKinds (.arithmetic op) a.kind b.kind)))

/-! ## What numbers come to -/

theorem IsInteger.number? {v : Value} {n : Int} (h : v.IsInteger n) :
    v.number? = some (.int n) := by
  cases h with
  | int => rfl
  | bool b => cases b <;> rfl

theorem isZero_int_iff {n : Int} : (Number.int n).isZero = true ↔ n = 0 := by
  have hpos : ∀ k, Nat.pow 2 k ≠ 0 := fun _ => (Nat.pow_pos Nat.two_pos).ne'
  have hunit := hpos 1074
  unfold Number.isZero Number.magnitude?
  generalize Nat.pow 2 1074 = unit at hunit
  simp [hunit]

open Float.Model in
/-- The floats that are unpacked to a zero are the two that are zero. -/
theorem unpack_eq_zero_iff {x : Float} :
    (∃ s, x.toModel.unpack = .zero s) ↔ x = 0.0 ∨ x = -0.0 := by
  have hpositive : (0.0 : Float).toModel = pack (.zero .positive) := by decide +kernel
  have hnegative : (-0.0 : Float).toModel = pack (.zero .negative) := by decide +kernel
  constructor
  · rintro ⟨s, hs⟩
    have hx := Decimal.pack_unpack x.toModel
    rw [hs] at hx
    cases s with
    | positive => exact .inl (congrArg Float.ofModel (hx.symm.trans hpositive.symm))
    | negative => exact .inr (congrArg Float.ofModel (hx.symm.trans hnegative.symm))
  · rintro (rfl | rfl)
    · exact ⟨.positive, by rw [hpositive]; rfl⟩
    · exact ⟨.negative, by rw [hnegative]; rfl⟩

theorem isZero_float_iff {x : Float} :
    (Number.float x).isZero = true ↔ x = 0.0 ∨ x = -0.0 := by
  rw [← unpack_eq_zero_iff, Number.isZero, Number.magnitude?]
  cases x.toModel.unpack with
  | zero s => simp [Number.floatMagnitude?]
  | finite s m e hm =>
    cases s <;> simp [Number.floatMagnitude?, hm.ne']
  | notANumber => simp [Number.floatMagnitude?]
  | infinity s => cases s <;> simp [Number.floatMagnitude?]

/-- Whether a number divides is seen of the value that it is. -/
theorem isZero_iff {v : Value} {a : Number} (h : v.number? = some a) :
    a.isZero = true ↔ v.IsZero := by
  cases v with
  | int n =>
    cases h
    rw [isZero_int_iff]
    constructor
    · rintro rfl
      exact .integer (.int 0)
    · rintro ⟨⟨⟩⟩
      rfl
  | bool b =>
    cases h
    rw [isZero_int_iff]
    constructor
    · intro hb
      cases b with
      | false => exact .integer (.bool false)
      | true => cases hb
    · rintro ⟨h⟩
      cases b with
      | false => rfl
      | true => cases h
  | float x =>
    cases h
    rw [isZero_float_iff]
    refine ⟨.float, ?_⟩
    rintro (⟨⟨⟩⟩ | hx)
    exact hx
  | _ => cases h

/-! ## The two halves -/

/-- One of the two operands knows what the operation comes to. -/
def OneKnows [Host] (op : ArithmeticOp) (a b : Value) (r : Except Halt Value) : Prop :=
  primary? op a b = some r ∧ reflected? op b a = none ∨
    primary? op a b = none ∧ reflected? op b a = some r

section Halves

variable {op : ArithmeticOp} {a b : Value} {r : Except Halt Value}

theorem isNumber_of_knows (h : a.knows b = true) : a.IsNumber ∧ b.IsNumber := by
  have hint : ∀ n, IsNumber (.int n) := fun n => .integer (.int n)
  have hbool : ∀ b, IsNumber (.bool b) := fun b => .integer (.bool b)
  unfold knows at h
  split at h
  · exact ⟨hint _, hint _⟩
  · exact ⟨.float _, hint _⟩
  · exact ⟨.float _, .float _⟩
  · exact ⟨hbool _, hbool _⟩
  · exact ⟨hbool _, hint _⟩
  · exact ⟨hbool _, .float _⟩
  · cases h

variable [Host]

theorem OneKnows.compute_eq (h : OneKnows op a b r) : compute op a b = r := by
  unfold compute
  rcases h with ⟨hprimary, _⟩ | ⟨hprimary, hreflected⟩
  · rw [hprimary]
  · rw [hprimary, hreflected]

theorem OneKnows.isSome_ne (h : OneKnows op a b r) :
    (primary? op a b).isSome ≠ (reflected? op b a).isSome := by
  rcases h with ⟨hprimary, hreflected⟩ | ⟨hprimary, hreflected⟩
  · simp [hprimary, hreflected]
  · simp [hprimary, hreflected]

/-- Of two numbers, the right one knows what the left one does not. -/
theorem oneKnows_of_numbers (ha : a.IsNumber) (hb : b.IsNumber) (h : numeric? op a b = some r) :
    OneKnows op a b r := by
  have hhalves : primary? op a b = (if a.knows b then numeric? op a b else none) ∧
      reflected? op b a = if a.knows b then none else numeric? op a b := by
    rcases ha with @⟨_, _, _ | _⟩ | _ <;> rcases hb with @⟨_, _, _ | _⟩ | _ <;> cases op <;>
      exact ⟨rfl, rfl⟩
  rw [h] at hhalves
  by_cases hknows : a.knows b = true
  · rw [if_pos hknows, if_pos hknows] at hhalves
    exact .inl hhalves
  · rw [if_neg hknows, if_neg hknows] at hhalves
    exact .inr hhalves

theorem oneKnows_of_repeat? {v : Value} {n : Int} (h : repeat? v (.int n) = some r) :
    OneKnows .star v (.int n) r ∧ OneKnows .star (.int n) v r := by
  cases v with
  | str s => exact ⟨.inl ⟨h, rfl⟩, .inr ⟨rfl, h⟩⟩
  | list items => exact ⟨.inl ⟨h, rfl⟩, .inr ⟨rfl, h⟩⟩
  | _ => cases h

/-- Operands that the operation is not for know nothing of it. -/
theorem halves_of_not_supported (h : ¬ Supported op a b) :
    primary? op a b = none ∧ reflected? op b a = none := by
  constructor
  · unfold primary?
    split
    · exact absurd (.strs _ _) h
    · exact absurd (.lists _ _) h
    · exact absurd (.before (.str _) _) h
    · exact absurd (.before (.list _) _) h
    · rw [if_neg fun hknows => h (.numbers _ (isNumber_of_knows hknows).1
        (isNumber_of_knows hknows).2)]
  · unfold reflected?
    split
    · exact absurd (.behind (.str _) _) h
    · exact absurd (.behind (.list _) _) h
    · exact absurd (.numbers _ (.integer (.int _)) (.float _)) h
    · exact absurd (.numbers _ (.integer (.int _)) (.integer (.bool _))) h
    · exact absurd (.numbers _ (.float _) (.integer (.bool _))) h
    · rfl

end Halves

/-! ## Repetitions -/

theorem join_replicate_empty (k : Nat) : String.join (List.replicate k "") = "" := by
  induction k with
  | zero => rfl
  | succ k ih => simp [List.replicate_succ, ih]

section Repetitions

variable [Host]

theorem repetitions_of_tooOften {v : Value} {size : Nat} {n : Int} (h : TooOften v size n) :
    repetitions v size n =
      if (Decimal.writeInt? n).isSome then .error (.error (.repetitionTooLarge n))
      else .error (.fault .numberTooLong) := if_pos h

theorem repetitions_of_not_tooOften {v : Value} {size : Nat} {n : Int} (h : ¬ TooOften v size n) :
    repetitions v size n = .ok (if size = 0 then 0 else n.toNat) := if_neg h

theorem Repeats.repeat?_eq {v : Value} {n : Int} {r : Except Halt Value} (h : Repeats v n r) :
    repeat? v (.int n) = some r := by
  have herror : ∀ {size : Nat} {halt : Halt}, v.HasSize size →
      repetitions v size n = .error halt → repeat? v (.int n) = some (.error halt) := by
    rintro _ halt (⟨s⟩ | ⟨items⟩) hrepeat <;> simp only [repeat?, hrepeat, Except.map]
  cases h with
  | @str s n h =>
    -- repeating nothing makes nothing, however often
    have hempty : s.length = 0 → String.join (List.replicate n.toNat s) = "" := by
      intro hs
      rw [String.length_eq_zero_iff.mp hs, join_replicate_empty]
    simp only [repeat?, repetitions_of_not_tooOften h, Except.map]
    split
    · rename_i hs
      rw [hempty hs]
      rfl
    · rfl
  | @list items n h =>
    simp only [repeat?, repetitions_of_not_tooOften h, Except.map]
    split
    · rename_i hitems
      simp [List.length_eq_zero_iff.mp hitems]
    · rfl
  | refused hv h hn =>
    refine herror hv ?_
    have hsome : (Decimal.writeInt? n).isSome = true := by
      rwa [Option.isSome_iff_ne_none, ne_eq, writeInt?_eq_none_iff]
    rw [repetitions_of_tooOften h, if_pos hsome]
  | unreported hv h hn =>
    refine herror hv ?_
    rw [repetitions_of_tooOften h, writeInt?_eq_none_iff.mpr hn]
    rfl

theorem Repeats.hasSize {v : Value} {n : Int} {r : Except Halt Value} (h : Repeats v n r) :
    ∃ size, v.HasSize size := by
  cases h with
  | str => exact ⟨_, .str _⟩
  | list => exact ⟨_, .list _⟩
  | refused hv => exact ⟨_, hv⟩
  | unreported hv => exact ⟨_, hv⟩

/-- What is not to be repeated too often has a repetition. -/
theorem exists_repeats_ok {v : Value} {size : Nat} {n : Int} (hv : v.HasSize size)
    (hn : ¬ TooOften v size n) : ∃ w, Repeats v n (.ok w) := by
  cases hv with
  | str s => exact ⟨_, .str hn⟩
  | list items => exact ⟨_, .list hn⟩

theorem exists_repeats {v : Value} {size : Nat} (hv : v.HasSize size) (n : Int) :
    ∃ r, Repeats v n r := by
  by_cases htoo : TooOften v size n
  · by_cases hlong : LongInt n
    · exact ⟨_, .unreported hv htoo hlong⟩
    · exact ⟨_, .refused hv htoo hlong⟩
  · obtain ⟨w, hw⟩ := exists_repeats_ok hv htoo
    exact ⟨_, hw⟩

end Repetitions

/-! ## Numbers -/

section Numbers

variable {op : ArithmeticOp} {a b : Value} {m n : Number}

theorem numeric?_eq (ha : a.number? = some m) (hb : b.number? = some n) :
    numeric? op a b = some ((m.apply op n).mapError .error) := by
  rw [numeric?, ha, hb]

theorem Converts.exists_number {v : Value} {x : Float} (h : v.Converts x) :
    ∃ a, v.number? = some a ∧ a.toFloat? = some x := by
  cases h with
  | float x => exact ⟨.float x, rfl, rfl⟩
  | @integer v n h hn => exact ⟨.int n, h.number?, if_neg hn⟩

theorem Converts.isNumber {v : Value} {x : Float} (h : v.Converts x) : v.IsNumber := by
  cases h with
  | float x => exact .float x
  | integer h => exact .integer h

theorem IsZero.isNumber {v : Value} (h : v.IsZero) : v.IsNumber := by
  cases h with
  | integer h => exact .integer h
  | @float x => exact .float x

theorem Mixed.isNumber {a b : Value} {n : Int} (h : Mixed a b n) : a.IsNumber ∧ b.IsNumber := by
  cases h with
  | left ha y => exact ⟨.integer ha, .float y⟩
  | right x hb => exact ⟨.float x, .integer hb⟩

theorem IsNumber.exists_number {v : Value} (h : v.IsNumber) : ∃ a, v.number? = some a := by
  cases h with
  | @integer v n h => exact ⟨.int n, h.number?⟩
  | float x => exact ⟨.float x, rfl⟩

theorem apply_of_isZero (hn : n.isZero = true) :
    m.apply .slash n = .error .divisionByZero := by
  simp [Number.apply, hn]

theorem not_divides_by_zero (h : op = .slash → n.isZero = false) :
    ¬ (op = .slash && n.isZero) = true := by
  intro hzero
  simp only [Bool.and_eq_true, decide_eq_true_eq] at hzero
  rw [h hzero.1] at hzero
  cases hzero.2

theorem apply_of_ints {i j k : Int} (h : OfIntegers i j op k) :
    (Number.int i).apply op (.int j) = .ok (.int k) := by
  have hdivisor : op = .slash → (Number.int j).isZero = false := by
    rintro rfl
    cases h with
    | quotient hj => exact Bool.eq_false_iff.mpr fun hzero => hj (isZero_int_iff.mp hzero)
  rw [Number.apply, if_neg (not_divides_by_zero hdivisor)]
  cases h <;> rfl

/-- Unless both are integers, both are converted. -/
theorem apply_of_not_ints (hdivisor : op = .slash → n.isZero = false)
    (hfloat : ∀ i j, m = .int i → n ≠ .int j) :
    m.apply op n = match m.toFloat?, n.toFloat? with
      | some x, some y => .ok (.float (Number.applyFloat op x y))
      | _, _ => .error .beyondFloats := by
  unfold Number.apply
  rw [if_neg (not_divides_by_zero hdivisor)]
  cases m with
  | float x => rfl
  | int i =>
    cases n with
    | float y => rfl
    | int j => exact absurd rfl (hfloat i j rfl)

end Numbers

/-! ## The table -/

section Table

variable {op : ArithmeticOp} {a b : Value} {r : Except Halt Value}

theorem numeric?_of_ints {m n k : Int} (ha : a.IsInteger m) (hb : b.IsInteger n)
    (h : OfIntegers m n op k) : numeric? op a b = some (.ok (.int k)) := by
  rw [numeric?_eq ha.number? hb.number?, apply_of_ints h]
  rfl

theorem numeric?_of_isZero (ha : a.IsNumber) (hb : b.IsZero) :
    numeric? .slash a b = some (.error (.error .divisionByZero)) := by
  obtain ⟨m, hm⟩ := ha.exists_number
  obtain ⟨n, hn⟩ := hb.isNumber.exists_number
  rw [numeric?_eq hm hn, apply_of_isZero ((isZero_iff hn).mpr hb)]
  rfl

/-- A float beside a number, which is not a zero that divides. -/
theorem numeric?_of_float {m n : Number} {x : Float} (ha : a.number? = some m)
    (hb : b.number? = some n) (hfloat : a = .float x ∨ b = .float x)
    (hdivisor : op = .slash → ¬ b.IsZero) :
    numeric? op a b = some (match m.toFloat?, n.toFloat? with
      | some x, some y => .ok (.float (Number.applyFloat op x y))
      | _, _ => .error (.error .beyondFloats)) := by
  have hnot : ∀ i j, m = .int i → n ≠ .int j := by
    rintro i j rfl rfl
    rcases hfloat with rfl | rfl
    · cases ha
    · cases hb
  have hzero : op = .slash → n.isZero = false := fun hop =>
    Bool.eq_false_iff.mpr fun hzero => hdivisor hop ((isZero_iff hb).mp hzero)
  rw [numeric?_eq ha hb, apply_of_not_ints hzero hnot]
  cases m.toFloat? <;> cases n.toFloat? <;> rfl

theorem OfFloats.eq_applyFloat {x y z : Float} (h : OfFloats x y op z) :
    Number.applyFloat op x y = z := by
  cases h <;> rfl

theorem Overflows.toFloat? {n : Int} (h : Overflows n) : (Number.int n).toFloat? = none := if_pos h

theorem exists_ofIntegers {m n : Int} (h : op = .slash → n ≠ 0) : ∃ k, OfIntegers m n op k := by
  cases op with
  | plus => exact ⟨_, .sum⟩
  | minus => exact ⟨_, .difference⟩
  | star => exact ⟨_, .product⟩
  | slash => exact ⟨_, .quotient (h rfl)⟩

theorem exists_ofFloats (op : ArithmeticOp) (x y : Float) : ∃ z, OfFloats x y op z := by
  cases op with
  | plus => exact ⟨_, .sum⟩
  | minus => exact ⟨_, .difference⟩
  | star => exact ⟨_, .product⟩
  | slash => exact ⟨_, .quotient⟩

variable [Host]

/-- Each line of the table for operands that the operation is for is known to one of them. -/
theorem Computes.oneKnows (h : Computes op a b r) (hs : Supported op a b) : OneKnows op a b r := by
  cases h with
  | integers ha hb h =>
    exact oneKnows_of_numbers (.integer ha) (.integer hb) (numeric?_of_ints ha hb h)
  | @floats _ _ _ x y z hfloat ha hb hdivisor h =>
    obtain rfl := h.eq_applyFloat
    obtain ⟨m, hm, hx⟩ := ha.exists_number
    obtain ⟨n, hn, hy⟩ := hb.exists_number
    have hnumeric : numeric? op a b = some (.ok (.float (Number.applyFloat op x y))) := by
      rcases hfloat with hfloat | hfloat
      · rw [numeric?_of_float hm hn (.inl hfloat) hdivisor, hx, hy]
      · rw [numeric?_of_float hm hn (.inr hfloat) hdivisor, hx, hy]
    exact oneKnows_of_numbers ha.isNumber hb.isNumber hnumeric
  | divisionByZero ha hb => exact oneKnows_of_numbers ha hb.isNumber (numeric?_of_isZero ha hb)
  | beyondFloats h hoverflow hdivisor =>
    cases h with
    | left ha y =>
      refine oneKnows_of_numbers (.integer ha) (.float y) ?_
      rw [numeric?_of_float ha.number? rfl (.inr rfl) hdivisor, hoverflow.toFloat?]
    | right x hb =>
      refine oneKnows_of_numbers (.float x) (.integer hb) ?_
      rw [numeric?_of_float rfl hb.number? (.inl rfl) hdivisor, hoverflow.toFloat?]
      rfl
  | strs s t => exact .inl ⟨rfl, rfl⟩
  | lists as bs => exact .inl ⟨rfl, rfl⟩
  | before h => exact (oneKnows_of_repeat? h.repeat?_eq).1
  | behind h => exact (oneKnows_of_repeat? h.repeat?_eq).2
  | unsupported h => exact absurd hs h

theorem exists_computes_of_mixed {n : Int} (h : Mixed a b n)
    (hdivisor : op = .slash → ¬ b.IsZero) : ∃ r, Computes op a b r := by
  by_cases hn : Overflows n
  · exact ⟨_, .beyondFloats h hn hdivisor⟩
  · cases h with
    | left ha y =>
      obtain ⟨z, hz⟩ := exists_ofFloats op (Float.ofInt n) y
      exact ⟨_, .floats (.inr rfl) (.integer ha hn) (.float y) hdivisor hz⟩
    | right x hb =>
      obtain ⟨z, hz⟩ := exists_ofFloats op x (Float.ofInt n)
      exact ⟨_, .floats (.inl rfl) (.float x) (.integer hb hn) hdivisor hz⟩

theorem exists_computes_of_numbers (ha : a.IsNumber) (hb : b.IsNumber) :
    ∃ r, Computes op a b r := by
  by_cases hzero : op = .slash ∧ b.IsZero
  · obtain ⟨rfl, hzero⟩ := hzero
    exact ⟨_, .divisionByZero ha hzero⟩
  have hdivisor : op = .slash → ¬ b.IsZero := fun hop h => hzero ⟨hop, h⟩
  cases ha with
  | integer ha =>
    cases hb with
    | @integer _ n hb =>
      obtain ⟨k, hk⟩ := exists_ofIntegers fun hop hn => hdivisor hop (.integer (hn ▸ hb))
      exact ⟨_, .integers ha hb hk⟩
    | float y => exact exists_computes_of_mixed (.left ha y) hdivisor
  | float x =>
    cases hb with
    | integer hb => exact exists_computes_of_mixed (.right x hb) hdivisor
    | float y =>
      obtain ⟨z, hz⟩ := exists_ofFloats op x y
      exact ⟨_, .floats (.inl rfl) (.float x) (.float y) hdivisor hz⟩

/-- The table has a line for whatever operands there are. -/
theorem exists_computes (op : ArithmeticOp) (a b : Value) : ∃ r, Computes op a b r := by
  by_cases hs : Supported op a b
  · cases hs with
    | strs s t => exact ⟨_, .strs s t⟩
    | lists as bs => exact ⟨_, .lists as bs⟩
    | before hv n =>
      obtain ⟨r, hr⟩ := exists_repeats hv n
      exact ⟨r, .before hr⟩
    | behind hv n =>
      obtain ⟨r, hr⟩ := exists_repeats hv n
      exact ⟨r, .behind hr⟩
    | numbers _ ha hb => exact exists_computes_of_numbers ha hb
  · exact ⟨_, .unsupported hs⟩

/-- A line of the table is for operands that the operation is for, or is the error that it is not
for them. -/
theorem Computes.supported_or (h : Computes op a b r) : Supported op a b ∨
    ¬ Supported op a b ∧ r = .error (.error (.operandKinds (.arithmetic op) a.kind b.kind)) := by
  cases h with
  | integers ha hb => exact .inl (.numbers op (.integer ha) (.integer hb))
  | floats _ ha hb => exact .inl (.numbers op ha.isNumber hb.isNumber)
  | divisionByZero ha hb => exact .inl (.numbers _ ha hb.isNumber)
  | beyondFloats h => exact .inl (.numbers op h.isNumber.1 h.isNumber.2)
  | strs s t => exact .inl (.strs s t)
  | lists as bs => exact .inl (.lists as bs)
  | before h =>
    obtain ⟨size, hv⟩ := h.hasSize
    exact .inl (.before hv _)
  | behind h =>
    obtain ⟨size, hv⟩ := h.hasSize
    exact .inl (.behind hv _)
  | unsupported h => exact .inr ⟨h, rfl⟩

theorem Computes.compute_eq (h : Computes op a b r) : compute op a b = r := by
  rcases h.supported_or with hs | ⟨hs, rfl⟩
  · exact (h.oneKnows hs).compute_eq
  · obtain ⟨hprimary, hreflected⟩ := halves_of_not_supported hs
    rw [compute, hprimary, hreflected]

/-- The family and the message of an error that an operation comes to. -/
inductive Said (op : ArithmeticOp) (a b : Value) : ErrorFamily → String → Prop where
  | divisionByZero : Said op a b .value "division by zero"
  | beyondFloats : Said op a b .value
      "number too large for float arithmetic: int too large to convert to float"
  | repetition (n : Int) : Said op a b .value ("repeat count too large: " ++ toString n)
  | kinds : Said op a b .type ("invalid operand types for " ++ (Operator.arithmetic op).symbol ++
      ": " ++ a.kind.label ++ " and " ++ b.kind.label)

theorem Computes.said {e : EvalError} (h : Computes op a b (.error (.error e))) :
    Said op a b e.family e.message := by
  have hrepeat : ∀ {v : Value} {n : Int}, Repeats v n (.error (.error e)) →
      Said op a b e.family e.message := by
    rintro v n ⟨⟩
    exact .repetition n
  cases h with
  | divisionByZero => exact .divisionByZero
  | beyondFloats => exact .beyondFloats
  | before h => exact hrepeat h
  | behind h => exact hrepeat h
  | unsupported => exact .kinds

end Table

/-- Arithmetic is the table: an operation on two values comes to what the table says and to nothing
else, whichever of the two halves it is that knows, and an error says which line of the table it is.
Where the operation is for the operands just one half knows it, and otherwise neither does. -/
theorem compute_iff_computes [Host] (op : ArithmeticOp) (a b : Value) :
    (∀ r, compute op a b = r ↔ Computes op a b r) ∧
      (∀ e, compute op a b = .error (.error e) → Said op a b e.family e.message) ∧
      (Supported op a b → (primary? op a b).isSome ≠ (reflected? op b a).isSome) ∧
      (¬ Supported op a b → primary? op a b = none ∧ reflected? op b a = none) := by
  obtain ⟨r, hr⟩ := exists_computes op a b
  have htable : ∀ r', compute op a b = r' ↔ Computes op a b r' := by
    refine fun r' => ⟨?_, Computes.compute_eq⟩
    rintro rfl
    rwa [hr.compute_eq]
  exact ⟨htable, fun e he => ((htable _).mp he).said, fun hs => (hr.oneKnows hs).isSome_ne,
    halves_of_not_supported⟩

/-- A text that is repeated as often as an integer of 4301 digits says is neither repeated nor
refused with an error: what would be said of the count cannot be written. -/
theorem compute_unreported_count : ∃ n : Int, n = Nat.pow 10 4300 ∧
    compute .star (.str "a") (.int n) = .error (.fault .numberTooLong) := by
  refine ⟨_, rfl, ?_⟩
  have hlong : LongInt (Nat.pow 10 4300) := by
    unfold LongInt
    decide +kernel
  have htoo : TooOften (.str "a") "a".length (Nat.pow 10 4300) := .inr (.inl (by decide +kernel))
  exact (Computes.before (.unreported (.str "a") htoo hlong)).compute_eq

end Value

end MiniLisp
