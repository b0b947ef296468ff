import MiniLisp.Proofs.Evaluation.Contract
import MiniLisp.Proofs.Evaluation.Frame
import MiniLisp.Proofs.Value.NumericTower

/-!
# Names that are bound

Evaluation binds names and frees none. The one computation that has an error about a name is to look
it up, and what is looked up is mentioned by the form outside quoted lists: data is never evaluated.
So a form whose names are bound when it begins has no error about a name
(`evalForm_names_stay_bound`), whatever is bound anew on the way.
-/

namespace MiniLisp

open MiniLisp.Action

/-! ## Errors that are not about a name -/

/-- The halt is no error about a name. -/
def Halt.Nameless (halt : Halt) : Prop := ∀ e, halt = .error e → e.family ≠ .name

theorem Halt.nameless_error {e : EvalError} (h : e.family ≠ .name) : (Halt.error e).Nameless := by
  rintro _ ⟨⟩
  exact h

theorem Halt.nameless_fault (f : Fault) : (Halt.fault f).Nameless := fun _ h => nomatch h

theorem Halt.nameless_outOfRounds : Halt.outOfRounds.Nameless := fun _ h => nomatch h

theorem EvalError.family_ne_name {e : EvalError} (h : ∀ x, e ≠ .unbound x) : e.family ≠ .name := by
  cases e with
  | unbound x => exact absurd rfl (h x)
  | _ => simp [family]

/-- That a form is nested too deeply is an error about a value. -/
theorem Halt.Nameless.ofForm {halt : Halt} (h : halt.Nameless) : halt.ofForm.Nameless := by
  cases halt with
  | error e => exact h
  | outOfRounds => exact h
  | fault f =>
    cases f with
    | nestedTooDeeply => exact nameless_error (by simp [EvalError.family])
    | _ => exact nameless_fault _

namespace Value

theorem Said.family_ne_name {op : ArithmeticOp} {a b : Value} {family : ErrorFamily}
    {message : String} (h : Said op a b family message) : family ≠ .name := by
  cases h <;> simp

section Host

variable [Host]

theorem compute_nameless (op : ArithmeticOp) (left right : Value) :
    FailsOnly (compute op left right) Halt.Nameless := by
  obtain ⟨r, hr⟩ := exists_computes op left right
  rw [hr.compute_eq]
  rintro _ rfl e rfl
  exact hr.said.family_ne_name

theorem compareWithin_nameless (room : Nat) (op : RelationalOp) (left right : Value) :
    FailsOnly (compareWithin room op left right) Halt.Nameless := by
  have hfault : ∀ r : Except Fault Bool, FailsOnly (r.mapError Halt.fault) Halt.Nameless := by
    intro r
    have hr : FailsOnly r fun _ => True := fun _ _ => trivial
    exact hr.mapError fun f _ => Halt.nameless_fault f
  unfold compareWithin
  split
  · exact hfault _
  · split
    · exact hfault _
    · exact .error (Halt.nameless_error (by simp [EvalError.family]))

theorem applyOperatorWithin_nameless (room : Nat) (op : Operator) (args : List Value) :
    FailsOnly (applyOperatorWithin room op args) Halt.Nameless := by
  unfold applyOperatorWithin
  refine .inside (fun _ => Halt.nameless_fault _) fun left _ => ?_
  split
  · refine FailsOnly.map (FailsOnly.bind (FailsOnly.mapM ?_) fun results _ => .ok _) _
    exact fun pair _ => compareWithin_nameless left _ pair.1 pair.2
  · exact .error (Halt.nameless_error (by simp [EvalError.family]))
  · exact .foldlM (compute_nameless _) _ _

end Host

end Value

theorem CallHalts.nameless [Host] {fn : Value} {args : List Value} {halt : Halt}
    (h : CallHalts fn args halt) : halt.Nameless := by
  cases h with
  | native => exact Halt.nameless_fault _
  | operator h => exact Value.applyOperatorWithin_nameless _ _ _ _ h

/-! ## Names that stay bound -/

/-- Every one of the names is bound. -/
def State.Binds (names : String → Prop) (s : State) : Prop :=
  ∀ x, names x → s.env.contains x = true

theorem State.Binds.define {names : String → Prop} {s : State} (h : s.Binds names) (x : String)
    (v : Value) : State.Binds names { s with env := s.env.define x v } := by
  intro y hy
  show ((s.env.insert x v).get? y).isSome = true
  rw [Table.get?_insert]
  split
  · rfl
  · exact h y hy

section Binds

variable {names : String → Prop} {halts : Halt → Prop}

/-- While names are bound, evaluation halts for other reasons than a name by itself. -/
theorem contract_binds (names : String → Prop) (hhalts : ∀ halt, halt.Nameless → halts halt) :
    Contract (State.Binds names) (fun halt s => halts halt ∧ s.Binds names) (fun _ => True) where
  data _ _ := trivial
  write _ _ hs := hs
  log _ _ _ _ hs := hs
  read _ hs := hs
  error _ _ hs he := ⟨hhalts _ (Halt.nameless_error (EvalError.family_ne_name he)), hs⟩
  interrupted _ hs _ := ⟨hhalts _ (Halt.nameless_fault _), hs⟩
  outOfRounds _ hs := ⟨hhalts _ Halt.nameless_outOfRounds, hs⟩
  tooDeep _ hs := ⟨hhalts _ (Halt.nameless_fault _), hs⟩

variable [Host]

/-- Names stay bound while a form is evaluated, if each name that the form mentions is one of them
or may halt the evaluation. -/
theorem evaluate_binds (hhalts : ∀ halt, halt.Nameless → halts halt) (rounds room : Nat)
    (node : Node) (hnode : ∀ x, node.Mentions x → names x ∨ halts (.error (.unbound x))) :
    Gives (State.Binds names) (fun halt s => halts halt ∧ s.Binds names) (fun _ => True)
      (evaluate rounds room node) := by
  have hcontract := contract_binds names hhalts
  refine hcontract.evaluation
    (fun node => ∀ x, node.Mentions x → names x ∨ halts (.error (.unbound x))) ?_ ?_ ?_ node hnode
    room
  · intro x hx
    refine .lookup (fun _ _ _ _ => trivial) fun s hs hnone => ⟨?_, hs⟩
    rcases hx x (Node.mem_unquoted_self _) with hbound | hhalt
    · -- the name is bound, so there is a value under it
      have hsome := hs x hbound
      rw [Table.contains, hnone] at hsome
      cases hsome
    · exact hhalt
  · exact fun _ _ f s _ _ _ hs => ⟨hhalts _ (Halt.nameless_fault f), hs⟩
  · intro room head tail hkind ih
    have hitem : ∀ item ∈ head :: tail, ∀ left, Gives (State.Binds names)
        (fun halt s => halts halt ∧ s.Binds names) (fun _ => True) (evaluate rounds left item) :=
      fun item hitem => ih item hitem fun x hx => hkind x (hx.of_item hitem)
    exact hcontract.form (fun _ => True) (hitem head List.mem_cons_self room)
      (fun item h => hitem item (List.mem_cons_of_mem head h))
      (fun _ x _ _ v _ _ hs => hs.define x v)
      fun _ _ _ s _ hs hhalt => ⟨hhalts _ hhalt.nameless, hs⟩

/-- Likewise for a form of its own, for which a full stack is an error like any other. -/
theorem evalForm_binds (hhalts : ∀ halt, halt.Nameless → halts halt)
    (hform : ∀ halt, halts halt → halts halt.ofForm) (rounds : Nat) (node : Node)
    (hnode : ∀ x, node.Mentions x → names x ∨ halts (.error (.unbound x))) :
    Gives (State.Binds names) (fun halt s => halts halt ∧ s.Binds names) (fun _ => True)
      (evalForm rounds node) :=
  (evaluate_binds hhalts rounds Host.stack node hnode).evalForm
    fun halt _ hhalt => ⟨hform halt hhalt.1, hhalt.2⟩

end Binds

/-- However the evaluation of a form ends, the names that were bound before it are bound after it.
If these are all the names that the form mentions outside quoted lists, an error that it has is not
about a name. -/
theorem evalForm_names_stay_bound [Host] (rounds : Nat) (node : Node) (s : State) :
    (∀ x, s.env.contains x = true → ((evalForm rounds node).after s).env.contains x = true) ∧
      ((∀ x, node.Mentions x → s.env.contains x = true) →
        ∀ e t, evalForm rounds node s = .error (.error e) t → e.family ≠ .name) := by
  have hstart : s.Binds (fun x => s.env.contains x = true) := fun _ hx => hx
  constructor
  · -- the form may halt for any reason, so its own names need not be bound
    have hrun := evalForm_binds (fun _ _ => trivial) (fun _ _ => trivial)
      rounds node (fun _ _ => .inr trivial) s hstart
    unfold Action.after
    cases heq : evalForm rounds node s with
    | ok v t =>
      rw [heq] at hrun
      exact hrun.2
    | error halt t =>
      rw [heq] at hrun
      exact hrun.2
  · intro hnames e t heq
    have hrun := evalForm_binds (fun _ h => h) (fun _ => Halt.Nameless.ofForm) rounds node
      (fun x hx => .inl (hnames x hx)) s hstart
    rw [heq] at hrun
    exact hrun.1 e rfl

/-- A function is bound anew, and an integer then stands where it was. What is quoted is a name that
nothing is bound to. -/
def replacing : Node :=
  .expr [.name "block", .expr [.name "set", .name "print", .int 2],
    .expr [.operator (.arithmetic .plus), .name "print", .list [.name "nowhere"]]]

/-- The error is about the kinds of the operands. -/
theorem evalForm_names_stay_bound_replacing : ∃ s e t,
    s = ⟨Environment.initial, Console.ofInput "" .closed 30⟩ ∧
    s.env.contains "nowhere" = false ∧ (∀ x, replacing.Mentions x → s.env.contains x = true) ∧
    evalForm 0 replacing s = .error (.error e) t ∧ e.family ≠ .name ∧
    (∀ x, s.env.contains x = true →
      ((evalForm 0 replacing).after s).env.contains x = true) := by
  have hrun : ∃ t, evalForm 0 replacing ⟨Environment.initial, Console.ofInput "" .closed 30⟩ =
      .error (.error (.operandKinds (.arithmetic .plus) .int .list)) t := by
    exact ⟨_, rfl⟩
  have hnames : ∀ x, replacing.Mentions x → Environment.initial.contains x = true := by
    intro x hx
    have hthree : x = "block" ∨ x = "set" ∨ x = "print" := by
      simpa [replacing, Node.Mentions, Node.unquoted, Node.unquotedEach, or_assoc] using hx
    rcases hthree with rfl | rfl | rfl <;> decide
  obtain ⟨t, hrun⟩ := hrun
  have hbound := evalForm_names_stay_bound 0 replacing
    ⟨Environment.initial, Console.ofInput "" .closed 30⟩
  exact ⟨_, _, t, rfl, by decide, hnames, hrun, hbound.2 hnames _ t hrun, hbound.1⟩

end MiniLisp
