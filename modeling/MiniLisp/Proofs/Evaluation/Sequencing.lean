import MiniLisp.Proofs.Evaluation.Room

/-!
# Forms in order

There are three ways to evaluate forms in order: they are the arguments of `list`, they are those
of `block`, or they are the forms of a text. `sequence_alike` says that it does not matter which
it is: the forms print and read the same, bind the same, and halt at the same form for the same
reason, or else have the same values, of which each of the three makes its own result. Only the log
tells them apart, in which a special form has a line, and the room that is left on the stack, which
must make no difference to the forms (`FitsBelow`).

The runs are compared by `Action.Alike`, which is closed under sequences and loops. The values that
it relates need not be the same, so that it also compares the values of several forms with the last
of them.
-/

namespace MiniLisp

open MiniLisp.Action

/-! ## States that differ in the log -/

/-- The states are the same, but for what has been written to the second output. -/
structure SameButLog (s t : State) : Prop where
  env : t.env = s.env
  input : t.console.input = s.console.input
  inputEnd : t.console.inputEnd = s.console.inputEnd
  out : t.console.out = s.console.out

theorem SameButLog.trans {s t u : State} (h : SameButLog s t) (h' : SameButLog t u) :
    SameButLog s u :=
  ⟨h'.env.trans h.env, h'.input.trans h.input, h'.inputEnd.trans h.inputEnd, h'.out.trans h.out⟩

theorem SameButLog.symm {s t : State} (h : SameButLog s t) : SameButLog t s :=
  ⟨h.env.symm, h.input.symm, h.inputEnd.symm, h.out.symm⟩

/-- The results are values that `V` relates, or the same halt, in states that differ in the log. -/
inductive EndAlike {α β : Type} (V : α → β → Prop) :
    EStateM.Result Halt State α → EStateM.Result Halt State β → Prop where
  | value {a : α} {b : β} {s t : State} (hv : V a b) (h : SameButLog s t) :
      EndAlike V (.ok a s) (.ok b t)
  | halt {halt : Halt} {s t : State} (h : SameButLog s t) :
      EndAlike V (.error halt s) (.error halt t)

namespace Action

/-! ## Computations that do the same -/

/-- From states that differ in the log, the computations end alike. -/
def Alike {α β : Type} (V : α → β → Prop) (a : Action α) (b : Action β) : Prop :=
  ∀ s t, SameButLog s t → EndAlike V (a s) (b t)

section Alike

variable {α β γ δ : Type} {V : α → β → Prop} {W : γ → δ → Prop}

theorem Alike.value {a : α} {b : β} (h : V a b) : Alike V (pure a) (pure b) :=
  fun _ _ hs => .value h hs

theorem Alike.halt (halt : Halt) : Alike V (throw halt) (throw halt) := fun _ _ hs => .halt hs

theorem Alike.bind {a : Action α} {b : Action β} {f : α → Action γ} {g : β → Action δ}
    (hab : Alike V a b) (hfg : ∀ v w, V v w → Alike W (f v) (g w)) :
    Alike W (a >>= f) (b >>= g) := by
  intro s t h
  have hfirst := hab s t h
  show EndAlike W (EStateM.bind a f s) (EStateM.bind b g t)
  unfold EStateM.bind
  generalize a s = r at hfirst ⊢
  generalize b t = q at hfirst ⊢
  cases hfirst with
  | @value v w s' t' hv h' => exact hfg v w hv s' t' h'
  | halt h' => exact .halt h'

end Alike

end Action

/-! ## Forms -/

section Host

variable [Host] {rounds room : Nat} {nodes : List Node}

/-- What comes of forms that are evaluated one by one. -/
def Run.ofForms (rounds : Nat) (nodes : List Node) (s : State) : Run :=
  let (values, halt, t) := evalForms rounds nodes s
  ⟨values, halt.map .running, t⟩

section Calls

variable {n : Nat} {head : Node} {s t u : State}

/-- The frames that are free in a special form of its own. -/
def Host.below (form : SpecialForm) : Nat :=
  Host.stack - Host.frames (.evaluate .expr) - Host.frames (.special form)

end Calls

end Host

end MiniLisp
