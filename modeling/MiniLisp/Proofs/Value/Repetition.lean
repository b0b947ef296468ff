import MiniLisp.Proofs.Value.NumericTower

/-!
# Repetition

A text or list that is repeated has its own items in turn, so the item at a place is the one at the
remainder of the place by the length (`Cycles`). The arithmetic of the counts follows from that of
the places: a repetition of a repetition cycles the first items, two repetitions that are joined do,
and there is one value at most that cycles given items so often (`repetition_cycles`).

A count that 64 bits hold is refused only where the host cannot build the result. Any other is
refused whatever is to be repeated, even if there is nothing to make (`repetition_refused`).
-/

namespace MiniLisp

/-! ## Items in turn -/

section Lists

variable {α : Type} {xs ys zs : List α} {j k : Nat}

/-- The second list is the first one over and over, so many times. -/
structure ItemsCycle (xs : List α) (k : Nat) (ys : List α) : Prop where
  length : ys.length = xs.length * k
  item : ∀ i < ys.length, ys[i]? = xs[i % xs.length]?

theorem ItemsCycle.nil (xs : List α) : ItemsCycle xs 0 [] := ⟨rfl, fun _ h => nomatch h⟩

theorem ItemsCycle.one (xs : List α) : ItemsCycle xs 1 xs where
  length := (Nat.mul_one _).symm
  item i hi := by rw [Nat.mod_eq_of_lt hi]

/-- What follows a whole number of rounds goes on as the first round does. -/
theorem ItemsCycle.append (hy : ItemsCycle xs j ys) (hz : ItemsCycle xs k zs) :
    ItemsCycle xs (j + k) (ys ++ zs) where
  length := by rw [List.length_append, hy.length, hz.length, Nat.mul_add]
  item i hi := by
    rw [List.length_append] at hi
    by_cases hfirst : i < ys.length
    · rw [List.getElem?_append_left hfirst]
      exact hy.item i hfirst
    · have hrest : ys.length ≤ i := Nat.le_of_not_lt hfirst
      have hmod : (i - ys.length) % xs.length = i % xs.length := by
        rw [hy.length] at hrest ⊢
        exact Nat.sub_mul_mod hrest
      rw [List.getElem?_append_right hrest, hz.item (i - ys.length) (by omega), hmod]

theorem ItemsCycle.trans (hy : ItemsCycle xs j ys) (hz : ItemsCycle ys k zs) :
    ItemsCycle xs (j * k) zs where
  length := by rw [hz.length, hy.length, Nat.mul_assoc]
  item i hi := by
    have hpos : 0 < ys.length := by
      rw [hz.length] at hi
      exact Nat.pos_of_mul_pos_right (Nat.zero_lt_of_lt hi)
    have hmod : i % ys.length % xs.length = i % xs.length :=
      Nat.mod_mod_of_dvd i ⟨j, hy.length⟩
    rw [hz.item i hi, hy.item _ (Nat.mod_lt i hpos), hmod]

theorem ItemsCycle.unique (hy : ItemsCycle xs k ys) (hz : ItemsCycle xs k zs) : ys = zs := by
  have hlength : ys.length = zs.length := hy.length.trans hz.length.symm
  apply List.ext_getElem?
  intro i
  by_cases hi : i < ys.length
  · rw [hy.item i hi, hz.item i (hlength ▸ hi)]
  · have hbeyond : ys.length ≤ i := Nat.le_of_not_lt hi
    rw [List.getElem?_eq_none hbeyond, List.getElem?_eq_none (hlength ▸ hbeyond)]

theorem itemsCycle_flatten (xs : List α) (k : Nat) :
    ItemsCycle xs k (List.replicate k xs).flatten := by
  induction k with
  | zero => exact .nil xs
  | succ k ih =>
    rw [List.replicate_succ, List.flatten_cons, Nat.add_comm]
    exact (ItemsCycle.one xs).append ih

end Lists

namespace Value

/-! ## Texts and lists -/

/-- The items of a list, or the characters of a text as texts of their own. -/
def items? : Value → Option (List Value)
  | .str s => some (s.toList.map fun c => .str (String.singleton c))
  | .list items => some items
  | _ => none

theorem HasSize.items? {v : Value} {size : Nat} (h : v.HasSize size) :
    ∃ items, v.items? = some items ∧ items.length = size := by
  cases h with
  | str s => exact ⟨_, rfl, by rw [List.length_map, String.length_toList]⟩
  | list items => exact ⟨items, rfl, rfl⟩

theorem hasSize_of_items? {v : Value} {items : List Value} (h : v.items? = some items) :
    v.HasSize items.length := by
  cases v with
  | str s =>
    cases h
    rw [List.length_map, String.length_toList]
    exact .str s
  | list items =>
    cases h
    exact .list _
  | _ => cases h

/-- A text or list is known by its kind and its items. -/
theorem eq_of_items? {v w : Value} {items : List Value} (hkind : v.kind = w.kind)
    (hv : v.items? = some items) (hw : w.items? = some items) : v = w := by
  cases v with
  | str s =>
    cases w with
    | str t =>
      have hsame := Option.some.inj (hv.trans hw.symm)
      have hchar : Function.Injective fun c => Value.str (String.singleton c) := by
        intro c d hcd
        simpa using hcd
      have hchars : s.toList = t.toList := List.map_injective_iff.mpr hchar hsame
      rw [String.toList_inj.mp hchars]
    | _ => cases hkind
  | list as =>
    cases w with
    | list bs =>
      cases hv
      cases hw
      rfl
    | _ => cases hkind
  | _ => cases hv

/-- The second value is of the kind of the first, and has its items in turn: it is so many times as
long, and the item at a place is the one at the remainder of the place by the length. -/
def Cycles (x : Value) (k : Nat) (y : Value) : Prop :=
  y.kind = x.kind ∧ ∃ xs ys, x.items? = some xs ∧ y.items? = some ys ∧ ItemsCycle xs k ys

section Cycles

variable {x y z : Value} {j k : Nat}

theorem Cycles.trans (hy : Cycles x j y) (hz : Cycles y k z) : Cycles x (j * k) z := by
  obtain ⟨hkind, xs, ys, hxs, hys, hitems⟩ := hy
  obtain ⟨hkind', ys', zs, hys', hzs, hitems'⟩ := hz
  cases hys.symm.trans hys'
  exact ⟨hkind'.trans hkind, xs, zs, hxs, hzs, hitems.trans hitems'⟩

theorem Cycles.unique (hy : Cycles x k y) (hz : Cycles x k z) : y = z := by
  obtain ⟨hkind, xs, ys, hxs, hys, hitems⟩ := hy
  obtain ⟨hkind', xs', zs, hxs', hzs, hitems'⟩ := hz
  cases hxs.symm.trans hxs'
  cases hitems.unique hitems'
  exact eq_of_items? (hkind.trans hkind'.symm) hys hzs

theorem Cycles.hasSize {size : Nat} (h : Cycles x k y) (hx : x.HasSize size) :
    y.HasSize (size * k) := by
  obtain ⟨_, xs, ys, hxs, hys, hitems⟩ := h
  obtain ⟨xs', hxs', rfl⟩ := hx.items?
  cases hxs.symm.trans hxs'
  rw [← hitems.length]
  exact hasSize_of_items? hys

/-- Two values that cycle the same items can be joined. -/
theorem Cycles.append [Host] (hy : Cycles x j y) (hz : Cycles x k z) :
    ∃ w, compute .plus y z = .ok w ∧ Cycles x (j + k) w := by
  obtain ⟨hkind, xs, ys, hxs, hys, hitems⟩ := hy
  obtain ⟨hkind', xs', zs, hxs', hzs, hitems'⟩ := hz
  cases hxs.symm.trans hxs'
  have hjoined := hitems.append hitems'
  cases y with
  | str s =>
    cases z with
    | str t =>
      cases hys
      cases hzs
      refine ⟨.str (s ++ t), rfl, hkind, xs, _, hxs, rfl, ?_⟩
      rw [String.toList_append, List.map_append]
      exact hjoined
    | _ => cases hkind.trans hkind'.symm
  | list as =>
    cases z with
    | list bs =>
      cases hys
      cases hzs
      exact ⟨.list _, rfl, hkind, xs, _, hxs, rfl, hjoined⟩
    | _ => cases hkind.trans hkind'.symm
  | _ => cases hys

end Cycles

/-! ## Counts -/

theorem HasSize.unique {v : Value} {size size' : Nat} (h : v.HasSize size)
    (h' : v.HasSize size') : size = size' := by
  cases h <;> cases h' <;> rfl

section Repeats

variable [Host] {x y : Value} {size : Nat} {m n : Int}

theorem Repeats.cycles (h : Repeats x n (.ok y)) : Cycles x n.toNat y := by
  cases h with
  | @str s n =>
    refine ⟨rfl, _, _, rfl, rfl, ?_⟩
    rw [String.toList_join, List.flatMap_replicate, List.map_flatten, List.map_replicate]
    exact itemsCycle_flatten _ _
  | list => exact ⟨rfl, _, _, rfl, rfl, itemsCycle_flatten _ _⟩

theorem Repeats.not_tooOften (h : Repeats x n (.ok y)) (hx : x.HasSize size) :
    ¬ TooOften x size n := by
  cases h with
  | str h => exact (HasSize.str _).unique hx ▸ h
  | list h => exact (HasSize.list _).unique hx ▸ h

theorem compute_star_eq_iff (hx : x.HasSize size) {r : Except Halt Value} :
    compute .star x (.int n) = r ↔ Repeats x n r := by
  constructor
  · rintro rfl
    obtain ⟨r, hr⟩ := exists_repeats hx n
    rwa [(Computes.before hr).compute_eq]
  · exact fun h => (Computes.before h).compute_eq

/-- A count may be on either side. -/
theorem compute_star_comm (hx : x.HasSize size) (n : Int) :
    compute .star x (.int n) = compute .star (.int n) x := by
  obtain ⟨r, hr⟩ := exists_repeats hx n
  rw [(Computes.before hr).compute_eq, (Computes.behind hr).compute_eq]

/-- With a result, the host can build every smaller one. -/
theorem not_tooOften_of_le (hm : 0 ≤ m) (hmn : m ≤ n) (h : ¬ TooOften x size n) :
    ¬ TooOften x size m := by
  have hleast : countRange.1 ≤ 0 := by decide
  simp only [TooOften, not_or, Int.not_lt, Bool.not_eq_false] at h ⊢
  obtain ⟨_, hgreatest, hbuilds⟩ := h
  have hsize : size * m.toNat ≤ size * n.toNat :=
    Nat.mul_le_mul_left size (Int.toNat_le_toNat hmn)
  exact ⟨hleast.trans hm, hmn.trans hgreatest, Host.builds_of_le hsize hbuilds⟩

/-- Repeating by one count and then by another is repeating by their product. -/
theorem Repeats.product (hx : x.HasSize size) (hm : 0 ≤ m) (hn : 0 ≤ n)
    (hy : Repeats x m (.ok y)) (hsecond : ¬ TooOften y (size * m.toNat) n)
    (hproduct : ¬ TooOften x size (m * n)) :
    ∃ z, Repeats y n (.ok z) ∧ Repeats x (m * n) (.ok z) := by
  obtain ⟨z, hz⟩ := exists_repeats_ok (hy.cycles.hasSize hx) hsecond
  obtain ⟨z', hz'⟩ := exists_repeats_ok hx hproduct
  have hcycles : Cycles x (m * n).toNat z := by
    rw [Int.toNat_mul hm hn]
    exact hy.cycles.trans hz.cycles
  cases hcycles.unique hz'.cycles
  exact ⟨z, hz, hz'⟩

/-- Repetitions by two counts, joined, are the repetition by their sum. -/
theorem Repeats.sum {z : Value} (hx : x.HasSize size) (hm : 0 ≤ m) (hn : 0 ≤ n)
    (hy : Repeats x m (.ok y)) (hz : Repeats x n (.ok z)) (hsum : ¬ TooOften x size (m + n)) :
    ∃ w, compute .plus y z = .ok w ∧ Repeats x (m + n) (.ok w) := by
  obtain ⟨w, hw, hjoined⟩ := hy.cycles.append hz.cycles
  obtain ⟨w', hw'⟩ := exists_repeats_ok hx hsum
  have hcycles : Cycles x (m + n).toNat w := by
    rw [Int.toNat_add hm hn]
    exact hjoined
  cases hcycles.unique hw'.cycles
  exact ⟨w, hw, hw'⟩

end Repeats

/-- A text or list beside a count comes to the same on either side of it, and to a value just if
64 bits hold the count and the host can build the result. The value has the items of the text or
list in turn. Repeating it by one count and then by another is repeating it by their product, where
each of the three can be built, and joining the repetitions by two counts is repeating it by their
sum, where that can be built. -/
theorem repetition_cycles [Host] {x : Value} {size : Nat} (hx : x.HasSize size) :
    (∀ n, compute .star x (.int n) = compute .star (.int n) x ∧
      ((∃ y, compute .star x (.int n) = .ok y) ↔ ¬ TooOften x size n) ∧
      ∀ y, compute .star x (.int n) = .ok y → Cycles x n.toNat y) ∧
    ∀ m n, 0 ≤ m → 0 ≤ n →
      (¬ TooOften x size m →
        (∀ y, compute .star x (.int m) = .ok y → ¬ TooOften y (size * m.toNat) n) →
        ¬ TooOften x size (m * n) →
          ∃ y z, compute .star x (.int m) = .ok y ∧ compute .star y (.int n) = .ok z ∧
            compute .star x (.int (m * n)) = .ok z) ∧
      (¬ TooOften x size (m + n) →
        ∃ y z w, compute .star x (.int m) = .ok y ∧ compute .star x (.int n) = .ok z ∧
          compute .plus y z = .ok w ∧ compute .star x (.int (m + n)) = .ok w) := by
  constructor
  · intro n
    refine ⟨compute_star_comm hx n, ⟨?_, ?_⟩, fun y hy => ((compute_star_eq_iff hx).mp hy).cycles⟩
    · rintro ⟨y, hy⟩
      exact ((compute_star_eq_iff hx).mp hy).not_tooOften hx
    · intro hn
      obtain ⟨y, hy⟩ := exists_repeats_ok hx hn
      exact ⟨y, (compute_star_eq_iff hx).mpr hy⟩
  · intro m n hm hn
    constructor
    · intro hfirst hsecond hproduct
      obtain ⟨y, hy⟩ := exists_repeats_ok hx hfirst
      have hfirst' := (Computes.before hy).compute_eq
      obtain ⟨z, hz, hz'⟩ := hy.product hx hm hn (hsecond y hfirst') hproduct
      exact ⟨y, z, hfirst', (Computes.before hz).compute_eq, (Computes.before hz').compute_eq⟩
    · intro hsum
      obtain ⟨y, hy⟩ := exists_repeats_ok hx (not_tooOften_of_le hm (by omega) hsum)
      obtain ⟨z, hz⟩ := exists_repeats_ok hx (not_tooOften_of_le hn (by omega) hsum)
      obtain ⟨w, hw, hw'⟩ := hy.sum hx hm hn hz hsum
      exact ⟨y, z, w, (Computes.before hy).compute_eq, (Computes.before hz).compute_eq, hw,
        (Computes.before hw').compute_eq⟩

/-- A text of two characters three times over, at either side of the count, in two steps, and as
one and two times joined. -/
theorem repetition_cycles_text : (Value.str "ab").HasSize 2 ∧
    compute .star (.str "ab") (.int 3) = .ok (.str "ababab") ∧
    compute .star (.int 3) (.str "ab") = .ok (.str "ababab") ∧
    Cycles (.str "ab") 3 (.str "ababab") ∧
    (∃ y z, compute .star (.str "ab") (.int 3) = .ok y ∧ compute .star y (.int 2) = .ok z ∧
      compute .star (.str "ab") (.int (3 * 2)) = .ok z) ∧
    ∃ y z w, compute .star (.str "ab") (.int 1) = .ok y ∧
      compute .star (.str "ab") (.int 2) = .ok z ∧ compute .plus y z = .ok w ∧
      compute .star (.str "ab") (.int (1 + 2)) = .ok w := by
  have hlaws := repetition_cycles (.str "ab")
  have hthree : compute .star (.str "ab") (.int 3) = .ok (.str "ababab") := rfl
  have hbounds : ∀ n ∈ [(3 : Int), 3 * 2, 1 + 2], ¬ TooOften (.str "ab") "ab".length n := by
    unfold TooOften
    decide
  have hsecond : ∀ y, compute .star (.str "ab") (.int 3) = .ok y →
      ¬ TooOften y ("ab".length * Int.toNat 3) 2 := by
    intro y hy
    cases hthree.symm.trans hy
    unfold TooOften
    decide
  exact ⟨.str "ab", hthree, (hlaws.1 3).1 ▸ hthree, (hlaws.1 3).2.2 _ hthree,
    (hlaws.2 3 2 (by decide) (by decide)).1 (hbounds 3 (by simp)) hsecond
      (hbounds (3 * 2) (by simp)),
    (hlaws.2 1 2 (by decide) (by decide)).2 (hbounds (1 + 2) (by simp))⟩

/-! ## Counts that are refused -/

/-- The integer is a count that 64 bits hold. -/
def IsCount (n : Int) : Prop := countRange.1 ≤ n ∧ n ≤ countRange.2

/-- How a count is refused: with an error that says it, if it can be written. -/
inductive Refusal (n : Int) : Halt → Prop where
  | said (h : ¬ LongInt n) : Refusal n (.error (.repetitionTooLarge n))
  | unsaid (h : LongInt n) : Refusal n (.fault .numberTooLong)

/-- What is left of a text or list without its characters or items. -/
def emptied : Value → Value
  | .str _ => .str ""
  | .list _ => .list []
  | v => v

theorem HasSize.eq_emptied {x y : Value} (h : y.HasSize 0) (hkind : y.kind = x.kind) :
    y = x.emptied := by
  generalize hsize : 0 = size at h
  cases h with
  | str s =>
    rw [String.length_eq_zero_iff.mp hsize.symm]
    cases x <;> first | rfl | cases hkind
  | list items =>
    rw [List.length_eq_zero_iff.mp hsize.symm]
    cases x <;> first | rfl | cases hkind

section Refused

variable {x : Value} {size : Nat} {n : Int} {halt : Halt}

/-- What 64 bits hold can be written. -/
theorem IsCount.not_longInt (h : IsCount n) : ¬ LongInt n := by
  obtain ⟨hleast, hgreatest⟩ := h
  have hdigits : 9223372036854775809 ≤ Nat.pow 10 Decimal.digitLimit := by decide +kernel
  unfold countRange at hleast hgreatest
  unfold LongInt
  omega

variable [Host]

theorem tooOften_of_not_isCount (h : ¬ IsCount n) : TooOften x size n := by
  unfold IsCount at h
  unfold TooOften
  omega

theorem IsCount.tooOften_iff (h : IsCount n) :
    TooOften x size n ↔ Host.builds x (size * n.toNat) = false := by
  refine ⟨?_, fun hbuilds => .inr (.inr hbuilds)⟩
  rintro (hless | hgreater | hbuilds)
  · exact absurd h.1 (Int.not_le.mpr hless)
  · exact absurd h.2 (Int.not_le.mpr hgreater)
  · exact hbuilds

theorem compute_star_eq_error_iff (hx : x.HasSize size) :
    compute .star x (.int n) = .error halt ↔ TooOften x size n ∧ Refusal n halt := by
  rw [compute_star_eq_iff hx]
  constructor
  · intro h
    cases h with
    | refused hv htoo hn => exact ⟨hv.unique hx ▸ htoo, .said hn⟩
    | unreported hv htoo hn => exact ⟨hv.unique hx ▸ htoo, .unsaid hn⟩
  · rintro ⟨htoo, hrefusal⟩
    cases hrefusal with
    | said hn => exact .refused hx htoo hn
    | unsaid hn => exact .unreported hx htoo hn

/-- Where nothing is to be made, what comes out is empty. -/
theorem compute_star_emptied (hx : x.HasSize size) (h : ¬ TooOften x size n)
    (hnone : size * n.toNat = 0) : compute .star x (.int n) = .ok x.emptied := by
  obtain ⟨y, hy⟩ := exists_repeats_ok hx h
  have hsize := hy.cycles.hasSize hx
  rw [hnone] at hsize
  rw [(compute_star_eq_iff hx).mpr hy, hsize.eq_emptied hy.cycles.1]

end Refused

/-- A text or list beside a count that 64 bits hold comes to an empty one if it is empty or the
count is not positive, and fails just if the host cannot build the result, with the error that says
the count. Beside any other count it fails, whatever it is and whatever the sign of the count; then
there is no error to report if the count has more digits than are written. -/
theorem repetition_refused [Host] {x : Value} {size : Nat} (hx : x.HasSize size) (n : Int) :
    compute .star x (.int n) = compute .star (.int n) x ∧
    (IsCount n →
      (n ≤ 0 ∨ size = 0 → compute .star x (.int n) = .ok x.emptied) ∧
      ∀ halt, compute .star x (.int n) = .error halt ↔
        halt = .error (.repetitionTooLarge n) ∧ 0 < size ∧ 0 < n ∧
          Host.builds x (size * n.toNat) = false) ∧
    (¬ IsCount n → ∀ halt, compute .star x (.int n) = .error halt ↔ Refusal n halt) ∧
    ∀ e, compute .star x (.int n) = .error (.error e) →
      e.family = .value ∧ e.message = "repeat count too large: " ++ toString n := by
  refine ⟨compute_star_comm hx n, fun hn => ⟨fun hnone => ?_, fun halt => ?_⟩, fun hn halt => ?_,
    fun e he => ?_⟩
  · have hproduct : size * n.toNat = 0 := by
      rcases hnone with hn | rfl
      · rw [Int.toNat_of_nonpos hn, Nat.mul_zero]
      · exact Nat.zero_mul _
    refine compute_star_emptied hx ?_ hproduct
    rw [hn.tooOften_iff, hproduct, Host.builds_zero]
    exact Bool.noConfusion
  · rw [compute_star_eq_error_iff hx, hn.tooOften_iff]
    constructor
    · rintro ⟨hbuilds, hrefusal⟩
      -- what cannot be built is not nothing
      have hpos : 0 < size * n.toNat := by
        refine Nat.pos_of_ne_zero fun hzero => ?_
        rw [hzero, Host.builds_zero] at hbuilds
        cases hbuilds
      have hcount := Nat.pos_of_mul_pos_left hpos
      cases hrefusal with
      | said => exact ⟨rfl, Nat.pos_of_mul_pos_right hpos, by omega, hbuilds⟩
      | unsaid hlong => exact absurd hlong hn.not_longInt
    · rintro ⟨rfl, _, _, hbuilds⟩
      exact ⟨hbuilds, .said hn.not_longInt⟩
  · rw [compute_star_eq_error_iff hx]
    exact and_iff_right (tooOften_of_not_isCount hn)
  · obtain ⟨_, hrefusal⟩ := (compute_star_eq_error_iff hx).mp he
    cases hrefusal
    exact ⟨rfl, rfl⟩

/-- A text, taken away by a count that is not positive, and refused the greatest that 64 bits
hold. -/
theorem repetition_refused_text : (Value.str "ab").HasSize 2 ∧ IsCount (-3) ∧
    IsCount 9223372036854775807 ∧
    compute .star (.str "ab") (.int (-3)) = .ok (.str "") ∧
    compute .star (.str "ab") (.int 9223372036854775807) =
      .error (.error (.repetitionTooLarge 9223372036854775807)) ∧
    (EvalError.repetitionTooLarge 9223372036854775807).message =
      "repeat count too large: 9223372036854775807" := by
  have hcount : IsCount (-3) := ⟨by decide, by decide⟩
  have hgreatest : IsCount 9223372036854775807 := ⟨by decide, by decide⟩
  obtain ⟨_, hsmall, _, _⟩ := repetition_refused (.str "ab") (-3)
  obtain ⟨_, hlarge, _, hmessage⟩ := repetition_refused (.str "ab") 9223372036854775807
  have herror := ((hlarge hgreatest).2 _).mpr ⟨rfl, by decide, by decide, by decide⟩
  exact ⟨.str "ab", hcount, hgreatest, (hsmall hcount).1 (.inl (by decide)), herror,
    (hmessage _ herror).2⟩

/-- A text is refused a count below those that 64 bits hold, and an empty text one above them,
although nothing is to be made of either. -/
theorem compute_star_beyond_counts :
    compute .star (.str "a") (.int (-100000000000000000000)) =
        .error (.error (.repetitionTooLarge (-100000000000000000000))) ∧
      compute .star (.str "") (.int 100000000000000000000) =
        .error (.error (.repetitionTooLarge 100000000000000000000)) := by
  have hbelow : ¬ LongInt (-100000000000000000000) := by
    unfold LongInt
    decide +kernel
  have habove : ¬ LongInt 100000000000000000000 := by
    unfold LongInt
    decide +kernel
  exact ⟨(compute_star_eq_error_iff (.str "a")).mpr ⟨.inl (by decide), .said hbelow⟩,
    (compute_star_eq_error_iff (.str "")).mpr ⟨.inr (.inl (by decide)), .said habove⟩⟩

end Value

end MiniLisp
