import MiniLisp.Proofs.Evaluation.Congruence

/-!
# What evaluation leaves alone

Evaluating a form binds no name but those that the form assigns, whatever values the special
forms are reached through: `evalForm_writes_only` says so of every run, also of one that halts.
-/

namespace MiniLisp

namespace Action

/-- The state that a computation leaves, also one that halts. -/
def after {α : Type} (a : Action α) (s : State) : State :=
  match a s with
  | .ok _ s' => s'
  | .error _ s' => s'

theorem after_bind {α β : Type} (a : Action α) (f : α → Action β) (s : State) :
    (a >>= f).after s = match a s with
      | .ok v s' => (f v).after s'
      | .error _ s' => s' := by
  show (match EStateM.bind a f s with
    | .ok _ s' => s'
    | .error _ s' => s') = _
  unfold EStateM.bind
  cases a s <;> rfl

/-- The computation leaves every binding as it is, except those of names that it `writes`. -/
def KeepsOthers (writes : String → Prop) {α : Type} (a : Action α) : Prop :=
  ∀ s x, ¬ writes x → (a.after s).env.get? x = s.env.get? x

theorem KeepsOthers.of_env {writes : String → Prop} {α : Type} {a : Action α}
    (h : ∀ s, (a.after s).env = s.env) : KeepsOthers writes a := by
  intro s x _
  rw [h s]

theorem KeepsOthers.bind {writes : String → Prop} {α β : Type} {a : Action α} {f : α → Action β}
    (ha : KeepsOthers writes a) (hf : ∀ v, KeepsOthers writes (f v)) :
    KeepsOthers writes (a >>= f) := by
  intro s x hx
  have hfirst := ha s x hx
  rw [after_bind]
  unfold after at hfirst
  cases heq : a s with
  | ok v s' =>
    rw [heq] at hfirst
    rw [← hfirst]
    exact hf v s' x hx
  | error halt s' =>
    rw [heq] at hfirst
    exact hfirst

theorem after_lookup (x : String) (s : State) : (lookup x).after s = s := by
  unfold after
  rw [lookup_apply]
  cases s.env.get? x <;> rfl

theorem keepsOthers_define {writes : String → Prop} {x : String} (v : Value) (hx : writes x) :
    KeepsOthers writes (define x v) := by
  intro s y hy
  have hne : y ≠ x := fun heq => hy (heq ▸ hx)
  show (s.env.insert x v).get? y = s.env.get? y
  rw [Table.get?_insert, if_neg hne]

end Action

variable [Host]

/-- Evaluation is put together from computations that leave other bindings alone. -/
theorem respects_keepsOthers (writes : String → Prop) (rounds : Nat) :
    Respects (fun _ a _ => Action.KeepsOthers writes a) (fun _ => True) writes rounds rounds
      Eq := by
  apply Respects.of_console
  · exact {
      value := fun _ => .of_env fun _ => rfl
      halt := fun _ => .of_env fun _ => rfl
      bind := .bind }
  · intro α f
    exact .of_env fun _ => rfl
  · intro x _
    exact .of_env fun s => by rw [Action.after_lookup]
  · intro x v hx
    exact Action.keepsOthers_define v hx

theorem after_evalForm (rounds : Nat) (node : Node) (s : State) :
    (evalForm rounds node).after s = (evaluate rounds Host.stack node).after s := by
  unfold Action.after evalForm
  cases evaluate rounds Host.stack node s <;> rfl

/-- A name is assigned by the form or has, after the form is evaluated, the binding that it had
before: the same value, or none. That holds however the evaluation ends, and also of one that is
stopped in a loop. -/
theorem evalForm_writes_only (rounds : Nat) (node : Node) (s : State) (x : String) :
    node.Assigns x ∨ ((evalForm rounds node).after s).env.get? x = s.env.get? x := by
  by_cases hx : node.Assigns x
  · exact .inl hx
  · right
    have hkeeps := (respects_keepsOthers node.Assigns rounds).evaluation node
      (fun _ _ => trivial) (fun _ hy => hy) Host.stack Host.stack rfl
    rw [after_evalForm]
    exact hkeeps s x hx

end MiniLisp
