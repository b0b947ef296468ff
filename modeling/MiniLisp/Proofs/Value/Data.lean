import MiniLisp.Evaluation

/-!
# Values that are data

Functions and special forms come from the environment alone. Operators on values, the collapsing
of results and quoting give data, or one of the values that they were given.
-/

namespace MiniLisp

namespace Value

/-- The value is nothing that only a name stands for: no function and no special form. -/
def IsData : Value → Prop
  | .native _ | .special _ => False
  | _ => True

theorem apply_isData {op : ArithmeticOp} {a b : Number} {v : Value} (h : a.apply op b = .ok v) :
    v.IsData := by
  unfold Number.apply at h
  split at h
  · cases h
  · split at h
    · cases h
      exact trivial
    · split at h
      · cases h
        exact trivial
      · cases h

theorem numeric?_isData {op : ArithmeticOp} {left right v : Value}
    (h : numeric? op left right = some (.ok v)) : v.IsData := by
  unfold numeric? at h
  split at h
  · rename_i a b _ _
    cases happly : a.apply op b with
    | ok w =>
      rw [happly] at h
      cases h
      exact apply_isData happly
    | error e =>
      rw [happly] at h
      cases h
  · cases h

/-- One value of several results is one of them, or data. -/
theorem collapse_cases (results : List Value) :
    collapse results ∈ results ∨ (collapse results).IsData := by
  unfold collapse
  split
  · exact .inr trivial
  · exact .inl List.mem_cons_self
  · exact .inr trivial

section Host

variable [Host]

theorem repeat?_isData {left right v : Value} (h : repeat? left right = some (.ok v)) :
    v.IsData := by
  unfold repeat? at h
  split at h
  · rename_i s n
    cases hcount : repetitions (.str s) s.length n with
    | ok k =>
      rw [hcount] at h
      cases h
      exact trivial
    | error halt =>
      rw [hcount] at h
      cases h
  · rename_i items n
    cases hcount : repetitions (.list items) items.length n with
    | ok k =>
      rw [hcount] at h
      cases h
      exact trivial
    | error halt =>
      rw [hcount] at h
      cases h
  · cases h

/-- Arithmetic gives numbers, texts and lists. -/
theorem compute_isData {op : ArithmeticOp} {left right v : Value}
    (h : compute op left right = .ok v) : v.IsData := by
  unfold compute at h
  split at h
  · rename_i result hprimary
    subst h
    unfold primary? at hprimary
    split at hprimary
    · cases hprimary
      exact trivial
    · cases hprimary
      exact trivial
    · exact repeat?_isData hprimary
    · exact repeat?_isData hprimary
    · split at hprimary
      · exact numeric?_isData hprimary
      · cases hprimary
  · split at h
    · rename_i result hreflected
      subst h
      unfold reflected? at hreflected
      split at hreflected
      · exact repeat?_isData hreflected
      · exact repeat?_isData hreflected
      · exact numeric?_isData hreflected
      · exact numeric?_isData hreflected
      · exact numeric?_isData hreflected
      · cases hreflected
    · cases h

theorem foldlM_compute_cases {op : ArithmeticOp} {v : Value} :
    ∀ {others : List Value} {first : Value}, others.foldlM (compute op) first = .ok v →
      v = first ∨ v.IsData
  | [], _, h => .inl (Except.ok.inj h).symm
  | other :: others, first, h => by
    rw [List.foldlM_cons] at h
    cases hstep : compute op first other with
    | error halt =>
      rw [hstep] at h
      cases h
    | ok w =>
      rw [hstep] at h
      rcases foldlM_compute_cases h with rfl | hv
      · exact .inr (compute_isData hstep)
      · exact .inr hv

/-- An operator gives one of its operands, or data. -/
theorem applyOperatorWithin_cases {room : Nat} {op : Operator} {args : List Value} {v : Value}
    (h : applyOperatorWithin room op args = .ok v) : v ∈ args ∨ v.IsData := by
  unfold applyOperatorWithin at h
  have h := Host.of_inside_eq h (by simp)
  split at h
  · rename_i relation _
    cases hcompare : compareNeighbours (room - Host.frames (.apply (.relational relation) args))
        relation args with
    | ok b =>
      rw [hcompare] at h
      cases h
      exact .inr trivial
    | error halt =>
      rw [hcompare] at h
      cases h
  · cases h
  · rcases foldlM_compute_cases h with rfl | hv
    · exact .inl List.mem_cons_self
    · exact .inr hv

end Host

end Value

/-- A quoted form is data. -/
theorem Node.quotedWithin_isData [Host] {node : Node} {room : Nat} {v : Value}
    (h : node.quotedWithin room = .ok v) : v.IsData := by
  have hitems : ∀ {items r}, (Node.quotedEachWithin r items).map Value.list = .ok v →
      v.IsData := by
    intro items r h
    cases heach : Node.quotedEachWithin r items with
    | ok vs =>
      rw [heach] at h
      cases h
      exact trivial
    | error f =>
      rw [heach] at h
      cases h
  unfold Node.quotedWithin at h
  have h := Host.of_inside_eq h (by simp)
  split at h <;> first | exact hitems h | (cases h; exact trivial) | cases h

end MiniLisp
