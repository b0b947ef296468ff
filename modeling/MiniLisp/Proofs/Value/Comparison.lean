import MiniLisp.Proofs.Value.Equality

/-!
# Relations between several operands

An operator of comparison compares neighbours only. Since every relation is transitive, that is
enough: where all neighbours can be compared, the answer says whether any two operands are in the
relation, the one that stands first on the left (`applyOperator_relational`). The three relations
fit together: "less" of operands is "greater" of the same in reverse, and of two numbers that are
not undefined just one relation holds (`applyOperator_consistent`).
-/

namespace MiniLisp

namespace Value

/-- The two values can be compared: both are numbers or, for equality, both texts or both lists. -/
inductive Comparable : RelationalOp → Value → Value → Prop where
  | numbers {a b : Value} (op : RelationalOp) (ha : a.IsNumber) (hb : b.IsNumber) :
      Comparable op a b
  | strs (s t : String) : Comparable .equal (.str s) (.str t)
  | lists (as bs : List Value) : Comparable .equal (.list as) (.list bs)

/-! ## Two operands -/

section Pairs

variable {op : RelationalOp} {a b : Value}

theorem Comparable.swap (h : Comparable op a b) : Comparable op.swap b a := by
  cases h with
  | numbers op ha hb => exact .numbers op.swap hb ha
  | strs s t => exact .strs t s
  | lists as bs => exact .lists bs as

theorem comparable_swap_iff : Comparable op.swap b a ↔ Comparable op a b :=
  ⟨fun h => op.swap_swap ▸ h.swap, Comparable.swap⟩

variable [Host] {room : Nat}

theorem relatedWithin?_of_number (ha : a.IsNumber) :
    relatedWithin? room op a b = (numbersRelated? op a b).map .ok := by
  rcases ha with @⟨_, _, _ | _⟩ | _ <;> cases op <;> rfl

theorem relatedWithin?_of_not_comparable (h : ¬ Comparable op a b) :
    relatedWithin? room op a b = none := by
  unfold relatedWithin?
  split
  · exact absurd (.strs _ _) h
  · exact absurd (.lists _ _) h
  · rw [numbersRelated?_of_not_numbers _ fun hnumbers => h (.numbers _ hnumbers.1 hnumbers.2)]
    rfl

theorem compareWithin_of_numbers (ha : a.IsNumber) (hb : b.IsNumber) :
    Decides (compareWithin room op a b) (Related op a b) := by
  obtain ⟨r, hr, hiff⟩ := numbersRelated?_of_numbers op ha hb
  refine ⟨r, ?_, hiff.trans ⟨.numbers, fun h => h.ordered ha⟩⟩
  unfold compareWithin
  rw [relatedWithin?_of_number ha, relatedWithin?_of_number hb]
  cases h : numbersRelated? op a b with
  | some r' =>
    rw [h] at hr
    cases hr
    rfl
  | none =>
    rw [h, Option.none_or] at hr
    rw [hr]
    rfl

/-- Values that can be compared are, if there is room for the lists among them. -/
theorem compareWithin_decides (h : Comparable op a b)
    (hroom : op = .equal → Host.RoomFor (a.depth + 1) room) :
    Decides (compareWithin room op a b) (Related op a b) := by
  have hequal : op = .equal → relatedWithin? room op a b = some (equalWithin room a b) →
      Decides (compareWithin room op a b) (Related op a b) := by
    intro hop hknown
    obtain ⟨r, hr, hiff⟩ := equalWithin_decides a b room (hroom hop)
    exact ⟨r, by rw [compareWithin, hknown, hr]; rfl, hop ▸ hiff⟩
  cases h with
  | numbers _ ha hb => exact compareWithin_of_numbers ha hb
  | strs s t => exact hequal rfl rfl
  | lists as bs => exact hequal rfl rfl

theorem compareWithin_of_not_comparable (h : ¬ Comparable op a b) :
    compareWithin room op a b =
      .error (.error (.operandKinds (.relational op) a.kind b.kind)) := by
  unfold compareWithin
  rw [relatedWithin?_of_not_comparable h,
    relatedWithin?_of_not_comparable fun hswap => h (comparable_swap_iff.mp hswap)]

end Pairs

/-! ## Neighbours -/

section Neighbours

variable {op : RelationalOp} {args : List Value}

/-- Since the relations are transitive, neighbours stand for all pairs. -/
theorem isChain_related_iff_pairwise : args.IsChain (Related op) ↔ args.Pairwise (Related op) := by
  have : Trans (Related op) (Related op) (Related op) := ⟨Related.trans⟩
  exact List.isChain_iff_pairwise

variable [Host] {room : Nat}

theorem compareNeighbours_cons_cons (a b : Value) (others : List Value) :
    compareNeighbours room op (a :: b :: others) = do
      let first ← compareWithin room op a b
      let rest ← compareNeighbours room op (b :: others)
      return first && rest := by
  simp [compareNeighbours, List.mapM_cons]

/-- Neighbours that can all be compared are all compared. -/
theorem compareNeighbours_decides
    (hroom : op = .equal → ∀ v ∈ args, Host.RoomFor (v.depth + 1) room)
    (hchain : args.IsChain (Comparable op)) :
    Decides (compareNeighbours room op args) (args.IsChain (Related op)) := by
  induction args with
  | nil => exact ⟨true, rfl, by simp⟩
  | cons a args ih =>
    cases args with
    | nil => exact ⟨true, rfl, by simp⟩
    | cons b others =>
      rw [List.isChain_cons_cons] at hchain
      obtain ⟨first, hfirst, hiff⟩ :=
        compareWithin_decides hchain.1 fun hop => hroom hop a List.mem_cons_self
      obtain ⟨rest, hrest, hiff'⟩ :=
        ih (fun hop v hv => hroom hop v (List.mem_cons_of_mem a hv)) hchain.2
      refine ⟨first && rest, by rw [compareNeighbours_cons_cons, hfirst, hrest]; rfl, ?_⟩
      rw [Bool.and_eq_true, hiff, hiff', List.isChain_cons_cons]

/-- The first neighbours that cannot be compared are reported. -/
theorem compareNeighbours_error
    (hroom : op = .equal → ∀ v ∈ args, Host.RoomFor (v.depth + 1) room)
    (hchain : ¬ args.IsChain (Comparable op)) :
    ∃ front a b back, args = front ++ a :: b :: back ∧ ¬ Comparable op a b ∧
      compareNeighbours room op args =
        .error (.error (.operandKinds (.relational op) a.kind b.kind)) := by
  induction args with
  | nil => exact absurd .nil hchain
  | cons a args ih =>
    cases args with
    | nil => exact absurd (.singleton a) hchain
    | cons b others =>
      rw [compareNeighbours_cons_cons]
      by_cases hab : Comparable op a b
      · obtain ⟨first, hfirst, _⟩ :=
          compareWithin_decides hab fun hop => hroom hop a List.mem_cons_self
        obtain ⟨front, c, d, back, hargs, hcd, hrest⟩ :=
          ih (fun hop v hv => hroom hop v (List.mem_cons_of_mem a hv))
            fun h => hchain (List.isChain_cons_cons.mpr ⟨hab, h⟩)
        exact ⟨a :: front, c, d, back, by rw [hargs]; rfl, hcd, by rw [hfirst, hrest]; rfl⟩
      · exact ⟨[], a, b, others, rfl, hab, by rw [compareWithin_of_not_comparable hab]; rfl⟩

/-- There is always room for an operator to compare its operands. -/
theorem applyOperator_relational_eq : applyOperator (.relational op) args = .bool <$>
    compareNeighbours (Host.stack - Host.frames (.apply (.relational op) args)) op args := by
  rw [applyOperator, applyOperatorWithin, Host.inside_of_le (Host.frames_le_stack _)]

/-- In the call of the operator there is room for a hundred lists inside one another. -/
theorem roomFor_depth {v : Value} (h : v.depth ≤ 100) (call : Call) :
    Host.RoomFor (v.depth + 1) (Host.stack - Host.frames call) :=
  ((Host.roomFor_stack (Nat.le_refl 102)).left call).mono (Nat.succ_le_succ h)

theorem applyOperator_of_comparable (hdepth : op = .equal → ∀ v ∈ args, v.depth ≤ 100)
    (hchain : args.IsChain (Comparable op)) :
    ∃ r, applyOperator (.relational op) args = .ok (.bool r) ∧
      (r = true ↔ args.Pairwise (Related op)) := by
  obtain ⟨r, hr, hiff⟩ :=
    compareNeighbours_decides (fun hop v hv => roomFor_depth (hdepth hop v hv) _) hchain
  exact ⟨r, by rw [applyOperator_relational_eq, hr]; rfl, hiff.trans isChain_related_iff_pairwise⟩

theorem applyOperator_of_not_comparable (hdepth : op = .equal → ∀ v ∈ args, v.depth ≤ 100)
    (hchain : ¬ args.IsChain (Comparable op)) :
    ∃ front a b back, args = front ++ a :: b :: back ∧ ¬ Comparable op a b ∧
      applyOperator (.relational op) args =
        .error (.error (.operandKinds (.relational op) a.kind b.kind)) := by
  rw [applyOperator_relational_eq]
  obtain ⟨front, a, b, back, hargs, hab, herror⟩ :=
    compareNeighbours_error (fun hop v hv => roomFor_depth (hdepth hop v hv) _) hchain
  exact ⟨front, a, b, back, hargs, hab, by rw [herror]; rfl⟩

end Neighbours

/-- A comparison of operands that are not nested too deeply is a type error just if two neighbours
cannot be compared, whatever the other neighbours are. Otherwise it is a truth value, and it is
true just if every operand is in the relation with every later one. -/
theorem applyOperator_relational [Host] (op : RelationalOp) {args : List Value}
    (hdepth : ∀ v ∈ args, v.depth ≤ 100) :
    ((∃ e, applyOperator (.relational op) args = .error (.error e) ∧ e.family = .type) ↔
        ∃ front a b back, args = front ++ a :: b :: back ∧ ¬ Comparable op a b) ∧
      ((¬ ∃ e, applyOperator (.relational op) args = .error (.error e) ∧ e.family = .type) →
        ∃ r, applyOperator (.relational op) args = .ok (.bool r) ∧
          (r = true ↔ args.Pairwise (Related op))) := by
  have hdepth' : op = .equal → ∀ v ∈ args, v.depth ≤ 100 := fun _ => hdepth
  by_cases hchain : args.IsChain (Comparable op)
  · obtain ⟨r, hr, hiff⟩ := applyOperator_of_comparable hdepth' hchain
    refine ⟨iff_of_false ?_ ?_, fun _ => ⟨r, hr, hiff⟩⟩
    · rintro ⟨e, he, _⟩
      exact nomatch hr.symm.trans he
    · rintro ⟨front, a, b, back, hargs, hab⟩
      exact hab (List.isChain_iff_forall_rel_of_append_cons_cons.mp hchain hargs)
  · obtain ⟨front, a, b, back, hargs, hab, herror⟩ :=
      applyOperator_of_not_comparable hdepth' hchain
    have htype : ∃ e, applyOperator (.relational op) args = .error (.error e) ∧ e.family = .type :=
      ⟨_, herror, rfl⟩
    exact ⟨iff_of_true htype ⟨front, a, b, back, hargs, hab⟩, absurd htype⟩

/-- An integer, a float and a truth value are in descending order, each above every later one. -/
theorem applyOperator_relational_mixed :
    (∀ v ∈ [Value.int 3, .float 2.5, .bool true], v.depth ≤ 100) ∧
      applyOperator (.relational .greater) [.int 3, .float 2.5, .bool true] = .ok (.bool true) ∧
      [Value.int 3, .float 2.5, .bool true].Pairwise (Related .greater) := by
  have hdepth : ∀ v ∈ [Value.int 3, .float 2.5, .bool true], v.depth ≤ 100 := by
    simp [depth]
  have hneighbours : compareNeighbours 994 .greater [.int 3, .float 2.5, .bool true] =
      .ok true := by decide +kernel
  have htrue : applyOperator (.relational .greater) [.int 3, .float 2.5, .bool true] =
      .ok (.bool true) := by
    rw [applyOperator_relational_eq]
    exact congrArg (Except.map Value.bool) hneighbours
  obtain ⟨r, hr, hiff⟩ := (applyOperator_relational .greater hdepth).2 fun ⟨e, he, _⟩ =>
    nomatch htrue.symm.trans he
  cases hr.symm.trans htrue
  exact ⟨hdepth, htrue, hiff.mp rfl⟩

/-! ## The relations with each other -/

section Consistency

variable {op : RelationalOp} {args : List Value} {a b : Value}

theorem isChain_comparable_reverse :
    args.reverse.IsChain (Comparable op.swap) ↔ args.IsChain (Comparable op) := by
  simp only [List.isChain_reverse, comparable_swap_iff]

theorem pairwise_related_reverse :
    args.reverse.Pairwise (Related op.swap) ↔ args.Pairwise (Related op) := by
  simp only [List.pairwise_reverse, related_swap_iff]

/-- In reverse, and with the relation turned round, operands compare alike. -/
theorem applyOperator_reverse [Host] (hdepth : op = .equal → ∀ v ∈ args, v.depth ≤ 100) :
    (∃ r, applyOperator (.relational op) args = .ok (.bool r) ∧
        applyOperator (.relational op.swap) args.reverse = .ok (.bool r)) ∨
      ∃ e e', applyOperator (.relational op) args = .error (.error e) ∧
        applyOperator (.relational op.swap) args.reverse = .error (.error e') ∧
        e.family = .type ∧ e'.family = .type := by
  have hdepth' : op.swap = .equal → ∀ v ∈ args.reverse, v.depth ≤ 100 :=
    fun hop v hv => hdepth (by cases op <;> first | rfl | cases hop) v (List.mem_reverse.mp hv)
  by_cases hchain : args.IsChain (Comparable op)
  · obtain ⟨r, hr, hiff⟩ := applyOperator_of_comparable hdepth hchain
    obtain ⟨r', hr', hiff'⟩ :=
      applyOperator_of_comparable hdepth' (isChain_comparable_reverse.mpr hchain)
    obtain rfl : r = r' :=
      Bool.eq_iff_iff.mpr (hiff.trans (pairwise_related_reverse.symm.trans hiff'.symm))
    exact .inl ⟨r, hr, hr'⟩
  · obtain ⟨_, _, _, _, _, _, he⟩ := applyOperator_of_not_comparable hdepth hchain
    obtain ⟨_, _, _, _, _, _, he'⟩ := applyOperator_of_not_comparable hdepth'
      fun h => hchain (isChain_comparable_reverse.mp h)
    exact .inr ⟨_, _, he, he', rfl, rfl⟩

theorem ordered_iff_orders {x y : EReal} (ha : a.exactValue? = some x)
    (hb : b.exactValue? = some y) : Ordered op a b ↔ op.Orders x y := by
  simp [Ordered, ha, hb]

/-- Any two exact values are in just one relation. -/
theorem exists_orders_iff (x y : EReal) :
    ∃ op, ∀ op' : RelationalOp, op'.Orders x y ↔ op' = op := by
  rcases lt_trichotomy x y with h | h | h
  · refine ⟨.less, fun op' => ?_⟩
    cases op' <;> simp [RelationalOp.Orders, h, h.ne, h.not_gt]
  · refine ⟨.equal, fun op' => ?_⟩
    cases op' <;> simp [RelationalOp.Orders, h]
  · refine ⟨.greater, fun op' => ?_⟩
    cases op' <;> simp [RelationalOp.Orders, h, h.ne', h.not_gt]

theorem IsNumber.depth_eq (ha : a.IsNumber) : a.depth = 0 := by
  rcases ha with @⟨_, _, _ | _⟩ | _ <;> rfl

theorem applyOperator_of_numbers [Host] (ha : a.IsNumber) (hb : b.IsNumber) :
    ∃ r, applyOperator (.relational op) [a, b] = .ok (.bool r) ∧ (r = true ↔ Ordered op a b) := by
  have hdepth : op = .equal → ∀ v ∈ [a, b], v.depth ≤ 100 := by
    simp [ha.depth_eq, hb.depth_eq]
  obtain ⟨r, hr, hiff⟩ := applyOperator_of_comparable hdepth
    (List.isChain_pair.mpr (.numbers op ha hb))
  refine ⟨r, hr, hiff.trans ?_⟩
  rw [List.pairwise_pair]
  exact ⟨fun h => h.ordered ha, .numbers⟩

end Consistency

/-- The relations fit together. Operands that are "less" from left to right are "greater" from right
to left, and where the one is a type error so is the other; and of two numbers that are not
undefined, whatever their kinds and sizes, just one relation is true. -/
theorem applyOperator_consistent [Host] :
    (∀ args : List Value,
      (∃ r, applyOperator (.relational .less) args = .ok (.bool r) ∧
          applyOperator (.relational .greater) args.reverse = .ok (.bool r)) ∨
        ∃ e e', applyOperator (.relational .less) args = .error (.error e) ∧
          applyOperator (.relational .greater) args.reverse = .error (.error e') ∧
          e.family = .type ∧ e'.family = .type) ∧
      ∀ a b : Value, a.IsNumber → b.IsNumber → ¬ a.Undefined → ¬ b.Undefined →
        ∃ op, ∀ op', applyOperator (.relational op') [a, b] = .ok (.bool (decide (op' = op))) := by
  constructor
  · intro args
    have hless : RelationalOp.less = .equal → ∀ v ∈ args, v.depth ≤ 100 := nofun
    exact applyOperator_reverse hless
  · intro a b ha hb hdefined hdefined'
    obtain ⟨x, hx⟩ := exists_exactValue? ha hdefined
    obtain ⟨y, hy⟩ := exists_exactValue? hb hdefined'
    obtain ⟨op, hop⟩ := exists_orders_iff x y
    refine ⟨op, fun op' => ?_⟩
    obtain ⟨r, hr, hiff⟩ := applyOperator_of_numbers ha hb
    have hr' : r = decide (op' = op) := Bool.eq_iff_iff.mpr <| calc
      r = true ↔ op'.Orders x y := hiff.trans (ordered_iff_orders hx hy)
      _ ↔ op' = op := hop op'
      _ ↔ decide (op' = op) = true := decide_eq_true_iff.symm
    rw [hr, hr']

/-- An integer that is no float, and the float that is nearest to it, are in just one relation. -/
theorem applyOperator_consistent_beyond_precision :
    (Value.int (2 ^ 53 + 1)).IsNumber ∧ (Value.float 9007199254740992.0).IsNumber ∧
      ¬ (Value.int (2 ^ 53 + 1)).Undefined ∧ ¬ (Value.float 9007199254740992.0).Undefined ∧
      ∃ op, ∀ op', applyOperator (.relational op')
        [.int (2 ^ 53 + 1), .float 9007199254740992.0] = .ok (.bool (decide (op' = op))) := by
  have hnan : ¬ (9007199254740992.0 : Float).isNaN = true := by decide +kernel
  have hdefined : ¬ (Value.float 9007199254740992.0).Undefined :=
    fun h => hnan (undefined_float_iff.mp h)
  exact ⟨.integer (.int _), .float _, nofun, hdefined,
    applyOperator_consistent.2 _ _ (.integer (.int _)) (.float _) nofun hdefined⟩

end Value

end MiniLisp
