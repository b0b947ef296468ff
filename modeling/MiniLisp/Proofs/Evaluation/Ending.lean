import MiniLisp.Proofs.Evaluation.Triple

/-!
# Ending

Evaluation takes the number of rounds that a loop may go through. A computation that ends within
some number of rounds ends in the same way within any greater one (`settles_evaluate`,
`settles_evalForm`), so it comes to one result at most (`Comes.unique`), and parts that are run in
sequence come to what they come to one after the other (`comes_bind`).
-/

namespace MiniLisp

open MiniLisp.Action

/-- The run was not stopped in a loop. -/
def Finished {α : Type} : EStateM.Result Halt State α → Prop
  | .ok _ _ => True
  | .error halt _ => halt ≠ .outOfRounds

/-- From the state the form comes to the result, if its loops are given rounds enough. -/
def Ends [Host] (node : Node) (s : State) (r : EStateM.Result Halt State Value) : Prop :=
  ∃ rounds, evalForm rounds node s = r ∧ Finished r

/-- If it is given rounds enough, the computation comes from the state to the result. -/
def Comes {α : Type} (a : Nat → Action α) (s : State) (r : EStateM.Result Halt State α) : Prop :=
  ∃ rounds, a rounds s = r ∧ Finished r

/-! ## Computations that end alike -/

/-- Wherever the first computation is not stopped, by the halt that this is called, the second does
the same. -/
def Action.Extends (stopped : Halt) {α : Type} (a b : Action α) : Prop :=
  ∀ s, (∃ t, a s = .error stopped t) ∨ b s = a s

namespace Action.Extends

variable {stopped : Halt}

theorem refl {α : Type} (a : Action α) : Extends stopped a a := fun _ => .inr rfl

theorem stop {α : Type} (a : Action α) : Extends stopped (throw stopped) a := fun s => .inl ⟨s, rfl⟩

theorem bind {α β : Type} {a b : Action α} {f g : α → Action β} (hab : Extends stopped a b)
    (hfg : ∀ v, Extends stopped (f v) (g v)) : Extends stopped (a >>= f) (b >>= g) := by
  intro s
  cases heq : a s with
  | ok v t =>
    rcases hab s with ⟨u, hstop⟩ | hsame
    · cases heq.symm.trans hstop
    · rw [bind_of_ok heq, bind_of_ok (hsame.trans heq)]
      exact hfg v t
  | error halt t =>
    rcases hab s with ⟨u, hstop⟩ | hsame
    · exact .inl ⟨u, bind_of_error hstop f⟩
    · right
      rw [bind_of_error heq, bind_of_error (hsame.trans heq)]

/-- A computation that is not stopped does what the one that extends it does. -/
theorem eq_of_not {α : Type} {a b : Action α} (h : Extends stopped a b) {s : State}
    (hs : ∀ t, a s ≠ .error stopped t) : b s = a s := by
  rcases h s with ⟨t, hstop⟩ | hsame
  · exact absurd hstop (hs t)
  · exact hsame

theorem eq_of_finished {α : Type} {a b : Action α} (h : Extends .outOfRounds a b) {s : State}
    (hs : Finished (a s)) : b s = a s := by
  refine h.eq_of_not fun t hstop => ?_
  rw [hstop] at hs
  exact absurd rfl hs

theorem sequential (stopped : Halt) : Sequential fun _ => Extends stopped where
  value _ := .refl _
  halt _ := .refl _
  bind := .bind

/-- A loop may be given more rounds. -/
theorem whileTrue {test test' : Action Bool} {body body' : Action Value} {rounds rounds' : Nat}
    (hle : rounds ≤ rounds') (htest : Extends .outOfRounds test test')
    (hbody : Extends .outOfRounds body body') :
    ∀ last, Extends .outOfRounds (Action.whileTrue test body rounds last)
      (Action.whileTrue test' body' rounds' last) := by
  induction rounds generalizing rounds' with
  | zero => exact fun last => .stop _
  | succ rounds ih =>
    intro last
    obtain ⟨more, rfl⟩ : ∃ more, rounds' = more + 1 := ⟨rounds' - 1, by omega⟩
    apply bind htest
    intro b
    cases b with
    | false => exact refl _
    | true => exact bind hbody (ih (by omega))

end Action.Extends

/-! ## Computations with rounds enough -/

/-- More rounds do not change how the computation ends. -/
def Settles {α : Type} (a : Nat → Action α) : Prop :=
  ∀ n m, n ≤ m → Extends .outOfRounds (a n) (a m)

/-- What is done first halts, or it has a value and what follows comes to the result. -/
inductive Chains {α β : Type} (first : EStateM.Result Halt State α → Prop)
    (next : α → State → EStateM.Result Halt State β → Prop) :
    EStateM.Result Halt State β → Prop where
  | halts {halt : Halt} {t : State} (h : first (.error halt t)) : Chains first next (.error halt t)
  | goes {v : α} {t : State} {r : EStateM.Result Halt State β} (h : first (.ok v t))
      (hnext : next v t r) : Chains first next r

section Chains

variable {α β : Type}

theorem chains_congr {first first' : EStateM.Result Halt State α → Prop}
    {next next' : α → State → EStateM.Result Halt State β → Prop}
    (hfirst : ∀ q, first q ↔ first' q) (hnext : ∀ v t q, next v t q ↔ next' v t q)
    {r : EStateM.Result Halt State β} : Chains first next r ↔ Chains first' next' r := by
  obtain rfl : first = first' := funext fun q => propext (hfirst q)
  obtain rfl : next = next' := funext fun v => funext fun t => funext fun q =>
    propext (hnext v t q)
  rfl

/-- It does not matter which of three parts are put together first. -/
theorem chains_assoc {γ : Type} {first : EStateM.Result Halt State α → Prop}
    {next : α → State → EStateM.Result Halt State β → Prop}
    {third : β → State → EStateM.Result Halt State γ → Prop} {r : EStateM.Result Halt State γ} :
    Chains (Chains first next) third r ↔ Chains first (fun v t => Chains (next v t) third) r := by
  constructor
  · rintro ((h | ⟨h, hnext⟩) | ⟨_ | ⟨h, hnext⟩, hthird⟩)
    · exact .halts h
    · exact .goes h (.halts hnext)
    · exact .goes h (.goes hnext hthird)
  · rintro (h | ⟨h, hnext | ⟨hnext, hthird⟩⟩)
    · exact .halts (.halts h)
    · exact .halts (.goes h hnext)
    · exact .goes (.goes h hnext) hthird

theorem chains_and_iff {P : Prop} {first : EStateM.Result Halt State α → Prop}
    {next : α → State → EStateM.Result Halt State β → Prop} {r : EStateM.Result Halt State β} :
    Chains (fun q => P ∧ first q) next r ↔ P ∧ Chains first next r := by
  constructor
  · rintro (⟨hP, h⟩ | ⟨⟨hP, h⟩, hnext⟩)
    · exact ⟨hP, .halts h⟩
    · exact ⟨hP, .goes h hnext⟩
  · rintro ⟨hP, h | ⟨h, hnext⟩⟩
    · exact .halts ⟨hP, h⟩
    · exact .goes ⟨hP, h⟩ hnext

end Chains

section Settles

variable {α β : Type} {a : Nat → Action α} {s : State} {r q : EStateM.Result Halt State α}

theorem settles_const (a : Action α) : Settles fun _ => a := fun _ _ _ => .refl a

theorem Settles.bind {f : Nat → α → Action β} (ha : Settles a)
    (hf : ∀ v, Settles fun n => f n v) : Settles fun n => a n >>= f n :=
  fun n m hle => (ha n m hle).bind fun v => hf v n m hle

theorem Settles.eq_of_le (ha : Settles a) {n m : Nat} (hle : n ≤ m) (h : a n s = r)
    (hr : Finished r) : a m s = r :=
  ((ha n m hle).eq_of_finished (h ▸ hr)).trans h

/-- A computation that ends does so whenever it has rounds enough. -/
theorem Comes.enough_rounds (h : Comes a s r) (ha : Settles a) :
    ∃ enough, ∀ rounds, enough ≤ rounds → a rounds s = r := by
  obtain ⟨enough, hrun, hr⟩ := h
  exact ⟨enough, fun rounds hle => ha.eq_of_le hle hrun hr⟩

/-- A computation comes to one result at most. -/
theorem Comes.unique (ha : Settles a) (hr : Comes a s r) (hq : Comes a s q) : q = r := by
  obtain ⟨n, hn⟩ := hr.enough_rounds ha
  obtain ⟨m, hm⟩ := hq.enough_rounds ha
  rw [← hn (max n m) (Nat.le_max_left n m), hm (max n m) (Nat.le_max_right n m)]

theorem comes_const {a : Action α} : Comes (fun _ => a) s r ↔ a s = r ∧ Finished r :=
  ⟨fun ⟨_, h⟩ => h, fun h => ⟨0, h⟩⟩

/-- What follows is given as many rounds as what is done first. -/
theorem comes_bind {f : Nat → α → Action β} (ha : Settles a) (hf : ∀ v, Settles fun n => f n v)
    {r : EStateM.Result Halt State β} :
    Comes (fun n => a n >>= f n) s r ↔ Chains (Comes a s) (fun v => Comes fun n => f n v) r := by
  constructor
  · rintro ⟨n, hrun, hfinished⟩
    change (a n >>= f n) s = r at hrun
    cases heq : a n s with
    | ok v t =>
      rw [bind_of_ok heq] at hrun
      exact .goes ⟨n, heq, trivial⟩ ⟨n, hrun, hfinished⟩
    | error halt t =>
      rw [bind_of_error heq] at hrun
      subst hrun
      exact .halts ⟨n, heq, hfinished⟩
  · rintro (⟨n, hn, hhalt⟩ | ⟨⟨n, hn, hv⟩, m, hm, hr⟩)
    · exact ⟨n, bind_of_error hn _, hhalt⟩
    · refine ⟨max n m, ?_, hr⟩
      have hfirst := ha.eq_of_le (Nat.le_max_left n m) hn hv
      exact (bind_of_ok hfirst _).trans ((hf _).eq_of_le (Nat.le_max_right n m) hm hr)

end Settles

/-! ## Evaluation -/

variable [Host]

theorem respects_extends {rounds rounds' : Nat} (hle : rounds ≤ rounds') :
    Respects (fun _ => Action.Extends .outOfRounds) (fun _ => True) (fun _ => True) rounds rounds'
      Eq where
  toSequential := Extends.sequential _
  write _ := .refl _
  log _ _ := .refl _
  readText := .refl _
  lookup _ _ := .refl _
  define _ _ _ := .refl _
  loop last htest hbody := .whileTrue hle htest hbody last
  inside := (Extends.sequential _).inside_of_eq
  quoted _ hroom := hroom ▸ .refl _
  texts _ hroom := hroom ▸ .refl _
  operator _ _ hroom := hroom ▸ .refl _

/-- More rounds do not change how a form ends. -/
theorem settles_evaluate (room : Nat) (node : Node) :
    Settles fun rounds => evaluate rounds room node := fun _ _ hle =>
  (respects_extends hle).evaluation node (fun _ _ => trivial) (fun _ _ => trivial) room room rfl

/-- Nor do they change how a form of its own ends. -/
theorem settles_evalForm (node : Node) : Settles fun rounds => evalForm rounds node := by
  intro n m hle s
  have hrun : (∃ t, evaluate n Host.stack node s = .error .outOfRounds t) ∨
      evaluate m Host.stack node s = evaluate n Host.stack node s :=
    settles_evaluate Host.stack node n m hle s
  simp only [evalForm]
  rcases hrun with ⟨t, hstop⟩ | hsame
  · left
    rw [hstop]
    exact ⟨t, rfl⟩
  · right
    rw [hsame]

/-- A form that ends does so whenever it has rounds enough. -/
theorem Ends.enough_rounds {node : Node} {s : State} {r : EStateM.Result Halt State Value}
    (h : Ends node s r) : ∃ enough, ∀ rounds, enough ≤ rounds → evalForm rounds node s = r :=
  Comes.enough_rounds h (settles_evalForm node)

/-- A form ends in one way at most. -/
theorem Ends.unique {node : Node} {s : State} {r q : EStateM.Result Halt State Value}
    (hr : Ends node s r) (hq : Ends node s q) : q = r :=
  Comes.unique (settles_evalForm node) hr hq

end MiniLisp
