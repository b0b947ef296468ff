import MiniLisp.Proofs.Value.NumericTower

/-!
# Arithmetic on several integers

Operators take any number of operands, from left to right. On integers and truth values each of
them has a closed form (`applyOperator_integers`), in which the order of the summands, of the
factors and of the divisors does not matter. For division this rests on `tdiv_tdiv`: cutting a
quotient toward zero after every divisor is cutting it once, after all of them.
-/

namespace MiniLisp

namespace Value

/-! ## Quotients cut toward zero -/

/-- A fraction without its part behind the point. -/
def truncate (r : ℚ) : Int := if 0 ≤ r then ⌊r⌋ else ⌈r⌉

/-- Dividing twice, and cutting both times, is dividing by the product. -/
theorem tdiv_tdiv (a b c : Int) : (a.tdiv b).tdiv c = a.tdiv (b * c) := by
  -- the signs go in front, and the rest is division of natural numbers
  obtain ⟨i, rfl | rfl⟩ := a.eq_nat_or_neg <;> obtain ⟨j, rfl | rfl⟩ := b.eq_nat_or_neg <;>
    obtain ⟨k, rfl | rfl⟩ := c.eq_nat_or_neg <;>
    simp only [Int.neg_tdiv, Int.tdiv_neg, neg_mul, mul_neg, neg_neg, ← Int.ofNat_tdiv,
      ← Nat.cast_mul, Nat.div_div_eq_div_mul]

theorem foldl_tdiv (m : Int) (ns : List Int) : ns.foldl Int.tdiv m = m.tdiv ns.prod := by
  induction ns generalizing m with
  | nil => simp
  | cons n ns ih => rw [List.foldl_cons, ih, tdiv_tdiv, List.prod_cons]

theorem foldl_sub (m : Int) (ns : List Int) : ns.foldl (· - ·) m = m - ns.sum := by
  induction ns generalizing m with
  | nil => simp
  | cons n ns ih => rw [List.foldl_cons, ih, List.sum_cons, Int.sub_sub]

theorem truncate_neg (r : ℚ) : truncate (-r) = -truncate r := by
  unfold truncate
  rcases lt_trichotomy r 0 with hr | rfl | hr
  · rw [if_pos (by linarith), if_neg (by linarith), Int.floor_neg]
  · simp
  · rw [if_neg (by linarith), if_pos hr.le, Int.ceil_neg]

theorem truncate_natCast_div (i j : Nat) : truncate (i / j) = (i : Int).tdiv j := by
  have hnonneg : (0 : ℚ) ≤ i / j := by positivity
  rw [truncate, if_pos hnonneg, Rat.floor_natCast_div_natCast]
  exact (Int.natCast_tdiv_eq_ediv).symm

/-- What the division of integers cuts is the exact quotient. -/
theorem tdiv_eq_truncate (a b : Int) : a.tdiv b = truncate (a / b) := by
  obtain ⟨i, rfl | rfl⟩ := a.eq_nat_or_neg <;> obtain ⟨j, rfl | rfl⟩ := b.eq_nat_or_neg <;>
    simp only [Int.neg_tdiv, Int.tdiv_neg, neg_neg, Int.cast_neg, Int.cast_natCast, neg_div,
      div_neg, truncate_neg, truncate_natCast_div]

/-! ## Folds -/

section Folds

variable {first : Value} {others : List Value} {m : Int} {ns : List Int}

/-- Operands in another order are the same integers in that order. -/
theorem exists_perm {args args' : List Value} (h : List.Forall₂ IsInteger args ns)
    (hperm : args'.Perm args) : ∃ ns', List.Forall₂ IsInteger args' ns' ∧ ns'.Perm ns := by
  obtain ⟨ns', h', hperm'⟩ := List.perm_comp_forall₂ hperm h
  exact ⟨ns', h', hperm'⟩

variable [Host]

/-- A step on integers gives the integer that is the first operand of the next. -/
theorem foldlM_integers {op : ArithmeticOp} {f : Int → Int → Int}
    (hothers : List.Forall₂ IsInteger others ns) (hfirst : first.IsInteger m) (hne : others ≠ [])
    (hstep : ∀ n ∈ ns, ∀ k, OfIntegers k n op (f k n)) :
    others.foldlM (compute op) first = .ok (.int (ns.foldl f m)) := by
  induction hothers generalizing first m with
  | nil => exact absurd rfl hne
  | @cons other n others ns hother hothers ih =>
    have hhead : compute op first other = .ok (.int (f m n)) :=
      (Computes.integers hfirst hother (hstep n List.mem_cons_self m)).compute_eq
    rw [List.foldlM_cons, hhead]
    show others.foldlM (compute op) (.int (f m n)) = _
    cases hothers with
    | nil => rfl
    | cons hnext hrest =>
      exact ih (.int _) (by simp) fun k hk => hstep k (List.mem_cons_of_mem n hk)

/-- The first divisor that is zero ends the fold. -/
theorem foldlM_zero (hothers : List.Forall₂ IsInteger others ns) (hfirst : first.IsInteger m)
    (hzero : 0 ∈ ns) :
    others.foldlM (compute .slash) first = .error (.error .divisionByZero) := by
  induction hothers generalizing first m with
  | nil => cases hzero
  | @cons other n others ns hother hothers ih =>
    rw [List.foldlM_cons]
    by_cases hn : n = 0
    · subst hn
      rw [(Computes.divisionByZero (.integer hfirst) (.integer hother)).compute_eq]
      rfl
    · rw [(Computes.integers hfirst hother (.quotient hn)).compute_eq]
      exact ih (.int _) ((List.mem_cons.mp hzero).resolve_left (Ne.symm hn))

/-! ## Closed forms -/

/-- There is always room for an operator to compute. -/
theorem applyOperator_arithmetic_eq (op : ArithmeticOp) :
    applyOperator (.arithmetic op) (first :: others) = others.foldlM (compute op) first := by
  rw [applyOperator, applyOperatorWithin, Host.inside_of_le (Host.frames_le_stack _)]

theorem applyOperator_fold {op : ArithmeticOp} {f : Int → Int → Int} {args : List Value}
    (h : List.Forall₂ IsInteger args ns) (hlength : 2 ≤ args.length)
    (hstep : ∀ m n, OfIntegers m n op (f m n)) : ∃ m rest, ns = m :: rest ∧
      applyOperator (.arithmetic op) args = .ok (.int (rest.foldl f m)) := by
  cases h with
  | nil => cases hlength
  | @cons first m others ns hfirst hothers =>
    have hne : others ≠ [] := List.ne_nil_of_length_pos (Nat.lt_of_succ_lt_succ hlength)
    rw [applyOperator_arithmetic_eq]
    exact ⟨m, ns, rfl, foldlM_integers hothers hfirst hne fun n _ m => hstep m n⟩

theorem applyOperator_sum {args : List Value} (h : List.Forall₂ IsInteger args ns)
    (hlength : 2 ≤ args.length) : applyOperator (.arithmetic .plus) args = .ok (.int ns.sum) := by
  obtain ⟨m, rest, rfl, hfold⟩ := applyOperator_fold h hlength fun _ _ => .sum
  rw [hfold, List.sum_eq_foldl, List.foldl_cons, Int.zero_add]

theorem applyOperator_product {args : List Value} (h : List.Forall₂ IsInteger args ns)
    (hlength : 2 ≤ args.length) : applyOperator (.arithmetic .star) args = .ok (.int ns.prod) := by
  obtain ⟨m, rest, rfl, hfold⟩ := applyOperator_fold h hlength fun _ _ => .product
  rw [hfold, List.prod_eq_foldl, List.foldl_cons, Int.one_mul]

theorem applyOperator_difference (hfirst : first.IsInteger m)
    (hothers : List.Forall₂ IsInteger others ns) (hne : others ≠ []) :
    applyOperator (.arithmetic .minus) (first :: others) = .ok (.int (m - ns.sum)) := by
  rw [← foldl_sub, applyOperator_arithmetic_eq]
  exact foldlM_integers hothers hfirst hne fun _ _ _ => .difference

theorem applyOperator_quotient (hfirst : first.IsInteger m)
    (hothers : List.Forall₂ IsInteger others ns) (hne : others ≠ []) :
    applyOperator (.arithmetic .slash) (first :: others) =
      if 0 ∈ ns then .error (.error .divisionByZero) else .ok (.int (truncate (m / ns.prod))) := by
  rw [applyOperator_arithmetic_eq]
  by_cases hzero : 0 ∈ ns
  · rw [if_pos hzero]
    exact foldlM_zero hothers hfirst hzero
  · rw [if_neg hzero, ← tdiv_eq_truncate, ← foldl_tdiv]
    exact foldlM_integers hothers hfirst hne fun n hn _ => .quotient fun h => hzero (h ▸ hn)

/-- Sums and products do not depend on the order of their operands. -/
theorem applyOperator_perm {args args' : List Value} (h : List.Forall₂ IsInteger args ns)
    (hlength : 2 ≤ args.length) (hperm : args'.Perm args) :
    applyOperator (.arithmetic .plus) args' = applyOperator (.arithmetic .plus) args ∧
      applyOperator (.arithmetic .star) args' = applyOperator (.arithmetic .star) args := by
  obtain ⟨ns', h', hperm'⟩ := exists_perm h hperm
  have hlength' : 2 ≤ args'.length := hperm.length_eq ▸ hlength
  rw [applyOperator_sum h hlength, applyOperator_sum h' hlength', applyOperator_product h hlength,
    applyOperator_product h' hlength', hperm'.sum_eq, hperm'.prod_eq]
  exact ⟨rfl, rfl⟩

/-- Differences and quotients do not depend on the order of the operands behind the first. -/
theorem applyOperator_perm_others {others' : List Value} (hfirst : first.IsInteger m)
    (h : List.Forall₂ IsInteger others ns) (hne : others ≠ []) (hperm : others'.Perm others) :
    applyOperator (.arithmetic .minus) (first :: others') =
        applyOperator (.arithmetic .minus) (first :: others) ∧
      applyOperator (.arithmetic .slash) (first :: others') =
        applyOperator (.arithmetic .slash) (first :: others) := by
  obtain ⟨ns', h', hperm'⟩ := exists_perm h hperm
  have hne' : others' ≠ [] := fun hnil => hne (List.nil_perm.mp (hnil ▸ hperm))
  rw [applyOperator_difference hfirst h hne, applyOperator_difference hfirst h' hne',
    applyOperator_quotient hfirst h hne, applyOperator_quotient hfirst h' hne', hperm'.sum_eq,
    hperm'.prod_eq]
  simp only [hperm'.mem_iff, and_self]

end Folds

/-- On two or more integers, a truth value counting as one or zero, the operators have closed forms:
the sum, the first less the sum of the others, the product, and the exact quotient of the first by
the product of the others, cut toward zero, unless one of these is zero. The order of summands,
factors, subtrahends and divisors is of no matter. -/
theorem applyOperator_integers [Host] {first : Value} {others : List Value} {m : Int}
    {ns : List Int} (hfirst : first.IsInteger m) (hothers : List.Forall₂ IsInteger others ns)
    (hne : others ≠ []) :
    applyOperator (.arithmetic .plus) (first :: others) = .ok (.int (m :: ns).sum) ∧
      applyOperator (.arithmetic .star) (first :: others) = .ok (.int (m :: ns).prod) ∧
      applyOperator (.arithmetic .minus) (first :: others) = .ok (.int (m - ns.sum)) ∧
      applyOperator (.arithmetic .slash) (first :: others) =
        (if 0 ∈ ns then .error (.error .divisionByZero)
        else .ok (.int (truncate (m / ns.prod)))) ∧
      (∀ args, args.Perm (first :: others) →
        applyOperator (.arithmetic .plus) args =
            applyOperator (.arithmetic .plus) (first :: others) ∧
          applyOperator (.arithmetic .star) args =
            applyOperator (.arithmetic .star) (first :: others)) ∧
      ∀ args, args.Perm others →
        applyOperator (.arithmetic .minus) (first :: args) =
            applyOperator (.arithmetic .minus) (first :: others) ∧
          applyOperator (.arithmetic .slash) (first :: args) =
            applyOperator (.arithmetic .slash) (first :: others) := by
  have hargs : List.Forall₂ IsInteger (first :: others) (m :: ns) := .cons hfirst hothers
  have hlength : 2 ≤ (first :: others).length :=
    Nat.succ_le_succ (List.length_pos_of_ne_nil hne)
  exact ⟨applyOperator_sum hargs hlength, applyOperator_product hargs hlength,
    applyOperator_difference hfirst hothers hne, applyOperator_quotient hfirst hothers hne,
    fun _ hperm => applyOperator_perm hargs hlength hperm,
    fun _ hperm => applyOperator_perm_others hfirst hothers hne hperm⟩

/-- Divided by `true` and then by two, minus seven is cut once, to minus three; in either order. -/
theorem applyOperator_integers_cut :
    IsInteger (.int (-7)) (-7) ∧ List.Forall₂ IsInteger [.bool true, .int 2] [1, 2] ∧
      applyOperator (.arithmetic .slash) [.int (-7), .bool true, .int 2] = .ok (.int (-3)) ∧
      applyOperator (.arithmetic .slash) [.int (-7), .int 2, .bool true] = .ok (.int (-3)) := by
  have hfirst : IsInteger (.int (-7)) (-7) := .int _
  have hothers : List.Forall₂ IsInteger [.bool true, .int 2] [1, 2] :=
    .cons (.bool true) (.cons (.int 2) .nil)
  obtain ⟨_, _, _, hquotient, _, horder⟩ := applyOperator_integers hfirst hothers (by simp)
  have hcut : truncate ((-7 : Int) / ([1, 2] : List Int).prod) = -3 :=
    (tdiv_eq_truncate (-7) _).symm
  rw [if_neg (by decide), hcut] at hquotient
  exact ⟨hfirst, hothers, hquotient, (horder _ (.swap _ _ _)).2.trans hquotient⟩

end Value

end MiniLisp
