import MiniLisp.Proofs.Evaluation.Congruence

/-!
# What computations do

`Action.Triple pre a post stop` says what a computation does from the states in which `pre` holds:
which values it gives and for which reasons it halts, and what holds of the state that it leaves.
`Action.Gives` is the case in which a property of states is kept from the one to the other. There
is a rule for each of the ways in which the evaluator is put together.
-/

namespace MiniLisp

namespace Action

/-! ## Two computations in sequence -/

theorem bind_of_ok {α β : Type} {a : Action α} {v : α} {s t : State} (h : a s = .ok v t)
    (f : α → Action β) : (a >>= f) s = f v t := by
  show EStateM.bind a f s = f v t
  unfold EStateM.bind
  rw [h]

theorem bind_of_error {α β : Type} {a : Action α} {halt : Halt} {s t : State}
    (h : a s = .error halt t) (f : α → Action β) : (a >>= f) s = .error halt t := by
  show EStateM.bind a f s = .error halt t
  unfold EStateM.bind
  rw [h]

/-- A sequence that gives a value is made of two computations that do. -/
theorem exists_of_bind_ok {α β : Type} {a : Action α} {f : α → Action β} {v : β} {s t : State}
    (h : (a >>= f) s = .ok v t) : ∃ w u, a s = .ok w u ∧ f w u = .ok v t := by
  cases heq : a s with
  | ok w u => exact ⟨w, u, rfl, (bind_of_ok heq f).symm.trans h⟩
  | error halt u =>
    rw [bind_of_error heq] at h
    cases h

/-! ## What a computation does -/

/-- From every state in which `pre` holds, the computation gives a value of which `post` holds in
the state it leaves, or halts for a reason of which `stop` holds there. -/
def Triple {α : Type} (pre : State → Prop) (a : Action α) (post : α → State → Prop)
    (stop : Halt → State → Prop) : Prop :=
  ∀ s, pre s → match a s with
    | .ok v s' => post v s'
    | .error halt s' => stop halt s'

/-- The computation keeps the invariant and gives values of which `good` holds. -/
def Gives {α : Type} (inv : State → Prop) (stop : Halt → State → Prop) (good : α → Prop)
    (a : Action α) : Prop :=
  Triple inv a (fun v s => good v ∧ inv s) stop

section Triple

variable {α β : Type} {pre : State → Prop} {post : α → State → Prop} {next : β → State → Prop}
  {stop : Halt → State → Prop} {a : Action α} {f : α → Action β}

theorem Triple.bind (ha : Triple pre a post stop) (hf : ∀ v, Triple (post v) (f v) next stop) :
    Triple pre (a >>= f) next stop := by
  intro s hs
  have hfirst := ha s hs
  cases heq : a s with
  | ok v s' =>
    rw [heq] at hfirst
    rw [bind_of_ok heq]
    exact hf v s' hfirst
  | error halt s' =>
    rw [heq] at hfirst
    rw [bind_of_error heq]
    exact hfirst

theorem Triple.mono {pre' : State → Prop} {post' : α → State → Prop} (h : Triple pre a post stop)
    (hpre : ∀ s, pre' s → pre s) (hpost : ∀ v s, post v s → post' v s) :
    Triple pre' a post' stop := by
  intro s hs
  have hsame := h s (hpre s hs)
  cases heq : a s with
  | ok v s' =>
    rw [heq] at hsame
    exact hpost v s' hsame
  | error halt s' =>
    rw [heq] at hsame
    exact hsame

/-- In the state that it leaves, a computation is known to have come there. -/
theorem Triple.remember (h : Triple pre a post stop) :
    Triple pre a (fun v s' => post v s' ∧ ∃ s, pre s ∧ a s = .ok v s') stop := by
  intro s hs
  have hsame := h s hs
  cases heq : a s with
  | ok v s' =>
    rw [heq] at hsame
    exact ⟨hsame, s, hs, heq⟩
  | error halt s' =>
    rw [heq] at hsame
    exact hsame

/-- What follows from the states a computation begins in may be assumed of it. -/
theorem Triple.of_fact {fact : Prop} (hfact : ∀ s, pre s → fact)
    (h : fact → Triple pre a post stop) : Triple pre a post stop :=
  fun s hs => h (hfact s hs) s hs

theorem Triple.ofExcept {r : Except Halt α} (hok : ∀ v s, r = .ok v → pre s → post v s)
    (herror : ∀ halt s, r = .error halt → pre s → stop halt s) :
    Triple pre (Action.ofExcept r) post stop := by
  cases r with
  | ok v => exact fun s hs => hok v s rfl hs
  | error halt => exact fun s hs => herror halt s rfl hs

theorem Triple.ofFaulty {r : Except Fault α} (hok : ∀ v s, r = .ok v → pre s → post v s)
    (herror : ∀ f s, r = .error f → pre s → stop (.fault f) s) :
    Triple pre (Action.ofFaulty r) post stop := by
  cases r with
  | ok v => exact fun s hs => hok v s rfl hs
  | error f => exact fun s hs => herror f s rfl hs

/-- A call halts where the stack is full, and does what is done in it where it is not. -/
theorem Triple.inside [Host] {call : Call} {room : Nat} {run : Nat → Action α}
    (hrun : ∀ left, Triple pre (run left) post stop)
    (hfull : ∀ s, pre s → stop (.fault .nestedTooDeeply) s) :
    Triple pre (Action.inside call room run) post stop := by
  unfold Action.inside
  rcases Host.inside_cases call room (throw (.fault .nestedTooDeeply)) run with
    ⟨left, _, heq⟩ | ⟨_, heq⟩
  · rw [heq]
    exact hrun left
  · rw [heq]
    exact hfull

end Triple

section Gives

variable {α β : Type} {inv : State → Prop} {stop : Halt → State → Prop} {good : α → Prop}
  {fine : β → Prop} {a : Action α}

theorem Gives.value {v : α} (h : good v) : Gives inv stop good (pure v) := fun _ hs => ⟨h, hs⟩

theorem Gives.halt {halt : Halt} (h : ∀ s, inv s → stop halt s) :
    Gives inv stop good (throw halt) := h

theorem Gives.bind {f : α → Action β} (ha : Gives inv stop good a)
    (hf : ∀ v, good v → Gives inv stop fine (f v)) : Gives inv stop fine (a >>= f) :=
  Triple.bind ha fun v s hs => hf v hs.1 s hs.2

theorem Gives.map {f : α → β} (ha : Gives inv stop good a) (hf : ∀ v, good v → fine (f v)) :
    Gives inv stop fine (f <$> a) := by
  rw [map_eq_pure_bind]
  exact ha.bind fun v hv => .value (hf v hv)

theorem Gives.mono {good' : α → Prop} (ha : Gives inv stop good a) (h : ∀ v, good v → good' v) :
    Gives inv stop good' a :=
  Triple.mono ha (fun _ hs => hs) fun v _ hv => ⟨h v hv.1, hv.2⟩

theorem Gives.inside [Host] {call : Call} {room : Nat} {run : Nat → Action α}
    (hrun : ∀ left, Gives inv stop good (run left))
    (hfull : ∀ s, inv s → stop (.fault .nestedTooDeeply) s) :
    Gives inv stop good (Action.inside call room run) :=
  Triple.inside hrun hfull

theorem Gives.onConsole {f : Console → Console}
    (h : ∀ s, inv s → inv { s with console := f s.console }) :
    Gives inv stop (fun _ => True) (Action.onConsole f) :=
  fun s hs => ⟨trivial, h s hs⟩

/-- Looking a name up gives what is bound to it, and changes nothing. -/
theorem Gives.lookup {good : Value → Prop} {x : String}
    (hgood : ∀ s v, inv s → s.env.get? x = some v → good v)
    (hstop : ∀ s, inv s → s.env.get? x = none → stop (.error (.unbound x)) s) :
    Gives inv stop good (Action.lookup x) := by
  intro s hs
  rw [lookup_apply]
  cases heq : s.env.get? x with
  | some v => exact ⟨hgood s v hs heq, hs⟩
  | none => exact hstop s hs heq

/-- A loop keeps what its test and its body keep. -/
theorem Gives.whileTrue {good : Value → Prop} {test : Action Bool} {body : Action Value}
    (htest : Gives inv stop (fun _ => True) test) (hbody : Gives inv stop good body)
    (hstop : ∀ s, inv s → stop .outOfRounds s) (rounds : Nat) :
    ∀ last, good last → Gives inv stop good (Action.whileTrue test body rounds last) := by
  induction rounds with
  | zero =>
    intro last _
    exact .halt hstop
  | succ rounds ih =>
    intro last hlast
    apply htest.bind
    intro b _
    cases b with
    | false => exact .value hlast
    | true => exact hbody.bind ih

end Gives

/-! ## Forms of their own -/

section Host

variable [Host]

/-- A form of its own comes to what evaluation comes to, a full stack aside. -/
theorem Triple.evalForm {pre : State → Prop} {post : Value → State → Prop}
    {stop stop' : Halt → State → Prop} {rounds : Nat} {node : Node}
    (h : Triple pre (evaluate rounds Host.stack node) post stop)
    (hstop : ∀ halt s, stop halt s → stop' halt.ofForm s) :
    Triple pre (evalForm rounds node) post stop' := by
  intro s hs
  have hrun := h s hs
  unfold MiniLisp.evalForm
  cases heq : evaluate rounds Host.stack node s with
  | ok v s' =>
    rw [heq] at hrun
    exact hrun
  | error halt s' =>
    rw [heq] at hrun
    exact hstop halt s' hrun

end Host

end Action

variable [Host]

theorem evalForm_ok_iff {rounds : Nat} {node : Node} {s t : State} {v : Value} :
    evalForm rounds node s = .ok v t ↔ evaluate rounds Host.stack node s = .ok v t := by
  unfold evalForm
  cases evaluate rounds Host.stack node s <;> simp

theorem evalForm_of_error {rounds : Nat} {node : Node} {halt : Halt} {s t : State}
    (h : evaluate rounds Host.stack node s = .error halt t) :
    evalForm rounds node s = .error halt.ofForm t := by
  rw [evalForm, h]

/-- What every form of a text keeps, also where it halts, the run of the forms keeps. -/
theorem evalForms_keeps {inv : State → Prop} {rounds : Nat} {nodes : List Node}
    (h : ∀ node ∈ nodes, Action.Gives inv (fun _ => inv) (fun _ => True) (evalForm rounds node)) :
    ∀ s, inv s → inv (evalForms rounds nodes s).2.2 := by
  induction nodes with
  | nil => exact fun s hs => hs
  | cons node nodes ih =>
    intro s hs
    have hnode := h node List.mem_cons_self s hs
    unfold evalForms
    cases heq : evalForm rounds node s with
    | error halt s' =>
      rw [heq] at hnode
      exact hnode
    | ok v s' =>
      rw [heq] at hnode
      exact ih (fun m hm => h m (List.mem_cons_of_mem node hm)) s' hnode.2

end MiniLisp
