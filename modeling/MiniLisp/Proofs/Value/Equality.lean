import MiniLisp.Proofs.Value.ExactOrder

/-!
# Equality of values

Numbers are related as their exact values are, texts are equal to themselves, and lists are equal
item by item (`Related`). Equality of values decides this relation where there is room for the lists
inside one another (`equalWithin_decides`), so it is symmetric and transitive, and a value equals
itself just if nothing in it equals nothing (`equals_partial_equivalence`).
-/

namespace MiniLisp

namespace Value

/-- What it means that two values are in a relation. -/
inductive Related : RelationalOp → Value → Value → Prop where
  | numbers {op : RelationalOp} {a b : Value} (h : Ordered op a b) : Related op a b
  | strs (s : String) : Related .equal (.str s) (.str s)
  | lists {as bs : List Value} (h : List.Forall₂ (Related .equal) as bs) :
      Related .equal (.list as) (.list bs)

/-! ## The relation -/

section Related

variable {op : RelationalOp} {a b c : Value}

theorem Ordered.isNumber (h : Ordered op a b) : a.IsNumber ∧ b.IsNumber := by
  obtain ⟨x, y, hx, hy, _⟩ := h
  exact ⟨.of_exactValue? hx, .of_exactValue? hy⟩

theorem not_isNumber_str (s : String) : ¬ (Value.str s).IsNumber := by
  rintro ⟨⟨⟩⟩

theorem not_isNumber_list (items : List Value) : ¬ (Value.list items).IsNumber := by
  rintro ⟨⟨⟩⟩

/-- A number is related to numbers only. -/
theorem Related.ordered (h : Related op a b) (ha : a.IsNumber) : Ordered op a b := by
  cases h with
  | numbers h => exact h
  | strs s => exact absurd ha (not_isNumber_str s)
  | lists => exact absurd ha (not_isNumber_list _)

theorem related_strs_iff {s t : String} : Related .equal (.str s) (.str t) ↔ s = t := by
  constructor
  · rintro (h | _)
    · exact absurd h.isNumber.1 (not_isNumber_str s)
    · rfl
  · rintro rfl
    exact .strs s

theorem related_lists_iff {as bs : List Value} :
    Related .equal (.list as) (.list bs) ↔ List.Forall₂ (Related .equal) as bs := by
  constructor
  · rintro (h | _ | h)
    · exact absurd h.isNumber.1 (not_isNumber_list as)
    · exact h
  · exact .lists

mutual

/-- Seen from the other side the relation is turned round. -/
theorem Related.swap : ∀ {a b : Value} {op : RelationalOp}, Related op a b → Related op.swap b a
  | _, _, _, .numbers h => .numbers (ordered_swap.mpr h)
  | _, _, _, .strs s => .strs s
  | _, _, _, .lists h => .lists (forall₂_swap h)

theorem forall₂_swap : ∀ {as bs : List Value},
    List.Forall₂ (Related .equal) as bs → List.Forall₂ (Related .equal) bs as
  | _, _, .nil => .nil
  | _, _, .cons h hs => .cons h.swap (forall₂_swap hs)

end

theorem related_swap_iff : Related op.swap b a ↔ Related op a b :=
  ⟨fun h => op.swap_swap ▸ h.swap, Related.swap⟩

mutual

theorem Related.trans : ∀ {a b c : Value} {op : RelationalOp},
    Related op a b → Related op b c → Related op a c
  | _, _, _, _, .numbers h, h' => .numbers (h.trans (h'.ordered h.isNumber.2))
  | _, _, _, _, .strs _, h' => h'
  | _, _, _, _, .lists _, .numbers h' => absurd h'.isNumber.1 (not_isNumber_list _)
  | _, _, _, _, .lists h, .lists h' => .lists (forall₂_trans h h')

theorem forall₂_trans : ∀ {as bs cs : List Value}, List.Forall₂ (Related .equal) as bs →
    List.Forall₂ (Related .equal) bs cs → List.Forall₂ (Related .equal) as cs
  | _, _, _, .nil, .nil => .nil
  | _, _, _, .cons h hs, .cons h' hs' => .cons (h.trans h') (forall₂_trans hs hs')

end

end Related

/-! ## Deciding equality -/

/-- The computation says whether the proposition holds. -/
def Decides {ε : Type} (r : Except ε Bool) (P : Prop) : Prop := ∃ b, r = .ok b ∧ (b = true ↔ P)

section Decides

variable {ε : Type} {r q : Except ε Bool} {P Q : Prop}

theorem Decides.congr (h : Decides r P) (hPQ : P ↔ Q) : Decides r Q := by
  obtain ⟨b, hb, hiff⟩ := h
  exact ⟨b, hb, hiff.trans hPQ⟩

theorem decides_false (h : ¬ P) : Decides (.ok false : Except ε Bool) P :=
  ⟨false, rfl, by simp [h]⟩

theorem Decides.eq_ok_true_iff (h : Decides r P) : r = .ok true ↔ P := by
  obtain ⟨b, rfl, hiff⟩ := h
  rw [← hiff, Except.ok.injEq]

/-- What says of one proposition whether it holds says the same. -/
theorem Decides.unique (hr : Decides r P) (hq : Decides q P) : r = q := by
  obtain ⟨b, rfl, hb⟩ := hr
  obtain ⟨c, rfl, hc⟩ := hq
  rw [Bool.eq_iff_iff.mpr (hb.trans hc.symm)]

end Decides

/-- Values that are neither two texts nor two lists are equal if they are equal numbers. -/
theorem numbersEqual_decides {a b : Value} (hstrs : ∀ s t, a = .str s → b ≠ .str t)
    (hlists : ∀ as bs, a = .list as → b ≠ .list bs) :
    Decides (.ok (((numbersRelated? .equal a b).or (numbersRelated? .equal b a)).getD false) :
      Except Fault Bool) (Related .equal a b) := by
  have hordered : Related .equal a b ↔ Ordered .equal a b := by
    refine ⟨?_, .numbers⟩
    rintro (h | s | _)
    · exact h
    · exact absurd rfl (hstrs s s rfl)
    · exact absurd rfl (hlists _ _ rfl)
  refine Decides.congr ?_ hordered.symm
  by_cases hnumbers : a.IsNumber ∧ b.IsNumber
  · obtain ⟨r, hr, hiff⟩ := numbersRelated?_of_numbers .equal hnumbers.1 hnumbers.2
    exact ⟨r, congrArg (fun o => Except.ok (o.getD false)) hr, hiff⟩
  · rw [numbersRelated?_of_not_numbers .equal hnumbers,
      numbersRelated?_of_not_numbers .equal fun h => hnumbers h.symm]
    exact decides_false fun h => hnumbers h.isNumber

theorem depth_le_depthEach {v : Value} {items : List Value} (hv : v ∈ items) :
    v.depth ≤ depthEach items := by
  induction items with
  | nil => cases hv
  | cons item items ih =>
    rw [depthEach]
    rcases List.mem_cons.mp hv with rfl | hv
    · exact Nat.le_max_left _ _
    · exact (ih hv).trans (Nat.le_max_right _ _)

section Host

variable [Host]

/-- Lists of one length are compared up to the first items that are not equal. -/
theorem equalEachWithin_decides {room : Nat} {as bs : List Value}
    (hitems : ∀ a ∈ as, ∀ b, Decides (equalWithin room a b) (Related .equal a b))
    (hlength : as.length = bs.length) :
    Decides (equalEachWithin room as bs) (List.Forall₂ (Related .equal) as bs) := by
  induction as generalizing bs with
  | nil =>
    cases bs with
    | nil => exact ⟨true, by rw [equalEachWithin]; simp, by simp⟩
    | cons b bs => cases hlength
  | cons a as ih =>
    cases bs with
    | nil => cases hlength
    | cons b bs =>
      obtain ⟨r, hr, hiff⟩ := hitems a List.mem_cons_self b
      rw [equalEachWithin, hr]
      cases r with
      | false => exact decides_false fun h => by cases h with | cons h _ => cases hiff.mpr h
      | true =>
        have hrest := ih (fun a' ha' => hitems a' (List.mem_cons_of_mem a ha'))
          (Nat.succ.inj hlength)
        exact hrest.congr (by rw [List.forall₂_cons, iff_true_intro (hiff.mp rfl), true_and])

theorem equalLists_decides {room : Nat} {as bs : List Value}
    (hitems : ∀ a ∈ as, ∀ b, Decides (equalWithin room a b) (Related .equal a b)) :
    Decides (if as.length = bs.length then equalEachWithin room as bs else .ok false)
      (Related .equal (.list as) (.list bs)) := by
  split
  · rename_i hlength
    exact (equalEachWithin_decides hitems hlength).congr related_lists_iff.symm
  · rename_i hlength
    exact decides_false fun h => hlength (related_lists_iff.mp h).length_eq

/-- Equality is decided where there is room for the first value's lists inside one another, and for
what lies in the innermost. -/
theorem equalWithin_decides (a : Value) : ∀ (b : Value) (room : Nat),
    Host.RoomFor (a.depth + 1) room → Decides (equalWithin room a b) (Related .equal a b) := by
  induction a using induction_items with
  | list as ih =>
    intro b room hroom
    rw [equalWithin, hroom.inside]
    cases b with
    | list bs =>
      refine equalLists_decides fun a ha b => ih a ha b _ ?_
      exact (hroom.left _).mono (Nat.succ_le_succ (depth_le_depthEach ha))
    | _ => exact numbersEqual_decides (by simp) (by simp)
  | other a ha =>
    intro b room hroom
    rw [equalWithin, hroom.mono (Nat.le_add_left 1 _) |>.inside]
    split
    · exact ⟨_, rfl, by rw [related_strs_iff, beq_iff_eq]⟩
    · exact absurd rfl (ha _)
    · rename_i hstrs _
      exact numbersEqual_decides hstrs fun as _ h => absurd h (ha as)

end Host

/-! ## A value and itself -/

/-- The value is the other one, or it is found in that at some depth of lists. -/
inductive PartOf (part : Value) : Value → Prop where
  | whole : PartOf part part
  | item {v : Value} {items : List Value} (hv : v ∈ items) (h : PartOf part v) :
      PartOf part (.list items)

/-- The value equals no value, not even itself. -/
inductive EqualsNothing : Value → Prop where
  | undefined {v : Value} (h : v.Undefined) : EqualsNothing v
  | symbol (name : String) : EqualsNothing (.symbol name)
  | null : EqualsNothing .null
  | operator (op : Operator) : EqualsNothing (.operator op)
  | native (fn : Native) : EqualsNothing (.native fn)
  | special (form : SpecialForm) : EqualsNothing (.special form)

/-- Every part of the value equals something. -/
def Equatable (v : Value) : Prop := ∀ part, PartOf part v → ¬ part.EqualsNothing

theorem equatable_of_atom {v : Value} (hlist : ∀ items, v ≠ .list items)
    (h : ¬ v.EqualsNothing) : v.Equatable := by
  rintro part (_ | ⟨_, _⟩)
  · exact h
  · exact absurd rfl (hlist _)

theorem equatable_list_iff {items : List Value} :
    (Value.list items).Equatable ↔ ∀ v ∈ items, v.Equatable := by
  constructor
  · intro h v hv part hpart
    exact h part (.item hv hpart)
  · rintro h part (_ | ⟨hv, hpart⟩)
    · rintro ⟨⟨⟩⟩
    · exact h _ hv part hpart

theorem IsNumber.not_list {v : Value} (h : v.IsNumber) (items : List Value) : v ≠ .list items := by
  rintro rfl
  exact not_isNumber_list items h

theorem EqualsNothing.exactValue?_eq_none {v : Value} (h : v.EqualsNothing) :
    v.exactValue? = none := by
  cases h with
  | undefined h => exact h.exactValue?_eq_none
  | _ => rfl

mutual

theorem Related.equatable : ∀ {a b : Value}, Related .equal a b → a.Equatable
  | _, _, .numbers h => by
    refine equatable_of_atom h.isNumber.1.not_list fun hnothing => ?_
    obtain ⟨x, _, hx, _⟩ := h
    exact nomatch hx.symm.trans hnothing.exactValue?_eq_none
  | _, _, .strs s => equatable_of_atom nofun nofun
  | _, _, .lists h => equatable_list_iff.mpr (equatable_of_forall₂ h)

theorem equatable_of_forall₂ : ∀ {as bs : List Value},
    List.Forall₂ (Related .equal) as bs → ∀ v ∈ as, v.Equatable
  | _, _, .nil => nofun
  | _, _, .cons h hs => List.forall_mem_cons.mpr ⟨h.equatable, equatable_of_forall₂ hs⟩

end

theorem related_self_of_number {v : Value} (hv : v.IsNumber) (h : v.Equatable) :
    Related .equal v v := by
  obtain ⟨x, hx⟩ := exists_exactValue? hv fun hundefined => h v .whole (.undefined hundefined)
  exact .numbers ⟨x, x, hx, hx, rfl⟩

mutual

theorem Equatable.related_self : ∀ {v : Value}, v.Equatable → Related .equal v v
  | .int n, h => related_self_of_number (.integer (.int n)) h
  | .bool b, h => related_self_of_number (.integer (.bool b)) h
  | .float x, h => related_self_of_number (.float x) h
  | .str s, _ => .strs s
  | .list items, h => .lists (forall₂_self items (equatable_list_iff.mp h))
  | .native fn, h => absurd (.native fn) (h _ .whole)
  | .special form, h => absurd (.special form) (h _ .whole)
  | .operator op, h => absurd (.operator op) (h _ .whole)
  | .symbol name, h => absurd (.symbol name) (h _ .whole)
  | .null, h => absurd .null (h _ .whole)

theorem forall₂_self : ∀ items : List Value, (∀ v ∈ items, v.Equatable) →
    List.Forall₂ (Related .equal) items items
  | [], _ => .nil
  | v :: items, h => .cons (h v List.mem_cons_self).related_self
      (forall₂_self items fun w hw => h w (List.mem_cons_of_mem v hw))

end

theorem related_self_iff {v : Value} : Related .equal v v ↔ v.Equatable :=
  ⟨Related.equatable, Equatable.related_self⟩

/-! ## Equality as it is computed -/

/-- With a value of a hundred lists inside one another every value is compared. -/
theorem equals_decides [Host] {a : Value} (h : a.depth ≤ 100) (b : Value) :
    Decides (equals a b) (Related .equal a b) :=
  equalWithin_decides a b Host.stack (Host.roomFor_stack (by omega))

/-- Of values that are not nested too deeply it is always known whether they are equal, and it is
the same from both sides. Equality is transitive, and what equals itself are the values in which,
however deep in lists, nothing is an undefined float, a symbol, the absence of a value, an operator,
a function or a special form. -/
theorem equals_partial_equivalence [Host] {a b c : Value} (ha : a.depth ≤ 100)
    (hb : b.depth ≤ 100) :
    (∃ r, equals a b = .ok r ∧ equals b a = .ok r ∧ (r = true ↔ Related .equal a b)) ∧
      (equals a b = .ok true → equals b c = .ok true → equals a c = .ok true) ∧
      (equals a a = .ok true ↔ ∀ part, PartOf part a → ¬ part.EqualsNothing) := by
  have hdecides : ∀ v, Decides (equals a v) (Related .equal a v) := equals_decides ha
  have hdecides' : ∀ v, Decides (equals b v) (Related .equal b v) := equals_decides hb
  refine ⟨?_, ?_, (hdecides a).eq_ok_true_iff.trans related_self_iff⟩
  · obtain ⟨r, hr, hiff⟩ := hdecides b
    have hba : Decides (equals b a) (Related .equal a b) :=
      (hdecides' a).congr (@related_swap_iff .equal a b)
    exact ⟨r, hr, (hba.unique (hdecides b)).trans hr, hiff⟩
  · rw [(hdecides b).eq_ok_true_iff, (hdecides' c).eq_ok_true_iff, (hdecides c).eq_ok_true_iff]
    exact Related.trans

/-- A list with an integer, a list with a truth value and a list with a float are equal. -/
theorem equals_partial_equivalence_mixed : ∃ a b c : Value,
    a = .list [.int 1, .list [.str "x"]] ∧ b = .list [.bool true, .list [.str "x"]] ∧
      c = .list [.float 1.0, .list [.str "x"]] ∧ a.depth ≤ 100 ∧ b.depth ≤ 100 ∧
      equals a b = .ok true ∧ equals b c = .ok true ∧ equals a c = .ok true ∧
      equals b a = .ok true := by
  refine ⟨_, _, _, rfl, rfl, rfl, ?_⟩
  have ha : depth (.list [.int 1, .list [.str "x"]]) ≤ 100 := by decide
  have hb : depth (.list [.bool true, .list [.str "x"]]) ≤ 100 := by decide
  have hab : equals (.list [.int 1, .list [.str "x"]]) (.list [.bool true, .list [.str "x"]]) =
      .ok true := by decide +kernel
  have hbc : equals (.list [.bool true, .list [.str "x"]]) (.list [.float 1.0, .list [.str "x"]]) =
      .ok true := by decide +kernel
  obtain ⟨⟨r, hr, hr', _⟩, htrans, _⟩ := equals_partial_equivalence ha hb
  exact ⟨ha, hb, hab, hbc, htrans hab hbc, hr'.trans (hr.symm.trans hab)⟩

end Value

end MiniLisp
