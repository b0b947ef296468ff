import MiniLisp.Proofs.Evaluation.Ending
import MiniLisp.Proofs.Evaluation.Outputs
import MiniLisp.Proofs.Source.Forms
import MiniLisp.Proofs.Value.Faults

/-!
# What a form can come to

A form has a value, or halts with an error of the language. Of the faults one alone gets out of it
(`ends_outcome`): an integer with more digits than are written is printed, or is the count of a
repetition that is too large, and has no text to print or to report. The other faults of values
become errors or have no cause in a form.
-/

namespace MiniLisp

section Host

variable [Host]

namespace Node

mutual

/-- Forms can be quoted unless the stack is full. -/
theorem quotedWithin_failsOnly : ∀ (node : Node) (room : Nat), node.IsForm →
    FailsOnly (node.quotedWithin room) (· = .nestedTooDeeply)
  | .expr items, room, h | .list items, room, h => by
    rw [IsForm] at h
    rw [quotedWithin]
    exact .inside (fun _ => rfl) fun left _ =>
      (quotedEachWithin_failsOnly items left h).map Value.list
  | .foreign _, _, h => by
    rw [IsForm] at h
    exact h.elim
  | .int _, _, _ | .float _, _, _ | .name _, _, _ | .str _, _, _ | .symbol _, _, _
  | .operator _, _, _ => by
    rw [quotedWithin]
    exact .inside (fun _ => rfl) fun left _ => .ok _

theorem quotedEachWithin_failsOnly : ∀ (nodes : List Node) (room : Nat), AreForms nodes →
    FailsOnly (quotedEachWithin room nodes) (· = .nestedTooDeeply)
  | [], _, _ => by
    rw [quotedEachWithin]
    exact .ok []
  | node :: nodes, room, h => by
    rw [AreForms] at h
    rw [quotedEachWithin]
    apply (quotedWithin_failsOnly node room h.1).bind
    intro v _
    exact (quotedEachWithin_failsOnly nodes room h.2).bind fun vs _ => .ok _

end

end Node

/-! ## The console -/

theorem Ends.follows {node : Node} {s t : State} {v : Value} (h : Ends node s (.ok v t)) :
    s.console.Follows t.console := by
  obtain ⟨rounds, hrun, _⟩ := h
  have hfollows := evalForm_follows rounds node s.console s (.refl _)
  rw [hrun] at hfollows
  exact hfollows.2

theorem Ends.follows_of_error {node : Node} {s t : State} {halt : Halt}
    (h : Ends node s (.error halt t)) : s.console.Follows t.console := by
  obtain ⟨rounds, hrun, _⟩ := h
  have hfollows := evalForm_follows rounds node s.console s (.refl _)
  rw [hrun] at hfollows
  exact hfollows

/-! ## Calls -/

/-- The call would have to write an integer with more digits than are written: to print it, or to
say that it is too large a count. -/
inductive WritesLong : Value → List Value → Prop where
  | print {fn : Native} {args : List Value} {v : Value} (hfn : ∀ name, fn ≠ .echo name)
      (hv : v ∈ args) (h : v.HoldsLong) : WritesLong (.native fn) args
  | count {first : Value} {others : List Value} (h : Value.RepeatsLongIn first others) :
      WritesLong (.operator (.arithmetic .star)) (first :: others)

/-- A call that halts with a fault finds the stack full or has a long integer to write. -/
theorem CallHalts.fault_cases {fn : Value} {args : List Value} {f : Fault}
    (h : CallHalts fn args (.fault f)) :
    f = .nestedTooDeeply ∨ f = .numberTooLong ∧ WritesLong fn args := by
  cases h with
  | native hfn h =>
    obtain ⟨v, hv, hunwritable⟩ := Value.displayAllWithin_failsOnly _ args f h
    cases hunwritable with
    | long hlong => exact .inr ⟨rfl, .print hfn hv hlong⟩
    | deep => exact .inl rfl
  | operator h =>
    have hfault : Value.OperatorFaults _ args f := Value.applyOperatorWithin_failsOnly _ _ args _ h
    cases hfault with
    | deep => exact .inl rfl
    | long hlong => exact .inr ⟨rfl, .count hlong⟩

/-! ## Forms -/

/-- Somewhere in the form a head and arguments have been evaluated to a call that cannot be made,
since it would have to write a long integer. -/
def Leaks (node : Node) (s : State) : Prop :=
  ∃ head tail fn args rounds room, .expr (head :: tail) ∈ node.unquoted ∧
    Evaluated rounds room head tail fn args s ∧ WritesLong fn args

/-- What a form comes to. -/
inductive Outcome (node : Node) : EStateM.Result Halt State Value → Prop where
  | value (v : Value) (s : State) : Outcome node (.ok v s)
  | error (e : EvalError) (s : State) : Outcome node (.error (.error e) s)
  | leak {s : State} (h : Leaks node s) : Outcome node (.error (.fault .numberTooLong) s)

/-- Why the evaluation of a form halts, before a full stack becomes an error. -/
inductive Stops (node : Node) : Halt → State → Prop where
  | error (e : EvalError) (s : State) : Stops node (.error e) s
  | outOfRounds (s : State) : Stops node .outOfRounds s
  | deep (s : State) : Stops node (.fault .nestedTooDeeply) s
  | leak {s : State} (h : Leaks node s) : Stops node (.fault .numberTooLong) s

open MiniLisp.Action

/-- A read has been interrupted. -/
def Interrupted (halt : Halt) (s : State) : Prop :=
  halt = .fault .interrupted ∧ s.console.inputEnd = .interrupted

theorem contract_halts (node : Node) (inputEnd : InputEnd) :
    Contract (fun s => s.console.inputEnd = inputEnd)
      (fun halt s => Stops node halt s ∨ Interrupted halt s) (fun _ => True) where
  data _ _ := trivial
  write _ _ hs := hs
  log s level part message hs := (s.console.follows_log level part message).inputEnd.trans hs
  read s hs := s.console.follows_readLine.inputEnd.trans hs
  error s e _ _ := .inl (.error e s)
  interrupted _ _ h := .inr ⟨rfl, h⟩
  outOfRounds s _ := .inl (.outOfRounds s)
  tooDeep s _ := .inl (.deep s)

theorem evaluate_halts {node : Node} (hnode : node.IsForm) (rounds room : Nat)
    (inputEnd : InputEnd) :
    Gives (fun s => s.console.inputEnd = inputEnd)
      (fun halt s => Stops node halt s ∨ Interrupted halt s) (fun _ => True)
      (evaluate rounds room node) := by
  -- what is evaluated on the way are forms of the node
  refine (contract_halts node inputEnd).evaluation (fun m => m ∈ node.unquoted ∧ m.IsForm) ?_ ?_ ?_
    node ⟨node.mem_unquoted_self, hnode⟩ room
  · exact fun _ _ => .lookup (fun _ _ _ _ => trivial) fun s _ _ => .inl (.error _ s)
  · intro m left f _ hm _ hf _
    rw [Node.quotedWithin_failsOnly m left hm.2 f hf]
    exact .inl (.deep _)
  · rintro room head tail ⟨hmem, hforms⟩ ih
    have hitem : ∀ item ∈ head :: tail, ∀ left, Gives (fun s => s.console.inputEnd = inputEnd)
        (fun halt s => Stops node halt s ∨ Interrupted halt s) (fun _ => True)
        (evaluate rounds left item) := by
      intro item hitem
      rw [Node.IsForm, Node.areForms_iff] at hforms
      exact ih item hitem ⟨Node.mem_unquoted_item hitem node hmem, hforms item hitem⟩
    refine (contract_halts node inputEnd).form (fun _ => True) (hitem head List.mem_cons_self room)
      (fun item h => hitem item (List.mem_cons_of_mem head h)) (fun _ _ _ _ _ _ _ hs => hs) ?_
    intro fn args halt s hargs _ hhalt
    cases halt with
    | error e => exact .inl (.error e s)
    | outOfRounds => exact .inl (.outOfRounds s)
    | fault f =>
      rcases hhalt.fault_cases with rfl | ⟨rfl, hlong⟩
      · exact .inl (.deep s)
      · exact .inl (.leak ⟨head, tail, fn, args, rounds, room, hmem, hargs, hlong⟩)

/-- Where no read is interrupted, nothing else halts a form. -/
theorem evaluate_stops {node : Node} (hnode : node.IsForm) (rounds room : Nat) :
    Gives (fun s => s.console.inputEnd ≠ .interrupted) (Stops node) (fun _ => True)
      (evaluate rounds room node) := by
  intro s hs
  have hrun := evaluate_halts hnode rounds room s.console.inputEnd s rfl
  cases heq : evaluate rounds room node s with
  | ok v t =>
    rw [heq] at hrun
    exact ⟨trivial, fun hend => hs (hrun.2.symm.trans hend)⟩
  | error halt t =>
    rw [heq] at hrun
    rcases hrun with hstops | ⟨rfl, hinterrupted⟩
    · exact hstops
    · -- the input's end is the one that it was before the run
      have hsame := (evaluate_follows s.console rounds room node) s (.refl _)
      rw [heq] at hsame
      exact absurd (hsame.inputEnd ▸ hinterrupted) hs

/-- A form that halts with a fault has a long integer to write, or is interrupted. -/
theorem Ends.fault_cases {node : Node} (hnode : node.IsForm) {s t : State} {f : Fault}
    (h : Ends node s (.error (.fault f) t)) :
    f = .numberTooLong ∧ Leaks node t ∨ f = .interrupted ∧ t.console.inputEnd = .interrupted := by
  obtain ⟨rounds, hrun, _⟩ := h
  have hhalts := evaluate_halts hnode rounds Host.stack s.console.inputEnd s rfl
  unfold evalForm at hrun
  cases heq : evaluate rounds Host.stack node s with
  | ok v u =>
    rw [heq] at hrun
    cases hrun
  | error halt u =>
    rw [heq] at hrun hhalts
    cases halt with
    | error e => cases hrun
    | outOfRounds => cases hrun
    | fault g =>
      rcases hhalts with hstops | ⟨hg, hinterrupted⟩
      · cases hstops with
        | deep => cases hrun
        | leak hleak =>
          cases hrun
          exact .inl ⟨rfl, hleak⟩
      · cases hg
        cases hrun
        exact .inr ⟨rfl, hinterrupted⟩

/-- A form that ends, where no read is interrupted, has a value or an error of the language, but
for one fault: an integer with more digits than are written is given to a call of the form that
prints it, or that repeats a text or list so often. -/
theorem ends_outcome {node : Node} (hnode : node.IsForm) {s : State}
    (hinput : s.console.inputEnd ≠ .interrupted) {r : EStateM.Result Halt State Value}
    (h : Ends node s r) : Outcome node r := by
  obtain ⟨rounds, rfl, hfinished⟩ := h
  have hrun := evaluate_stops hnode rounds Host.stack s hinput
  unfold evalForm at hfinished ⊢
  cases heq : evaluate rounds Host.stack node s with
  | ok v t => exact .value v t
  | error halt t =>
    rw [heq] at hrun hfinished
    cases hrun with
    | error e => exact .error e t
    | outOfRounds => exact absurd rfl hfinished
    | deep => exact .error _ t
    | leak hleak => exact .leak hleak

/-- A native function is called in the state that evaluating its arguments has left. -/
theorem evaluateForm_native {rounds room : Nat} {head : Node} {tail : List Node} {fn : Native}
    {args : List Value} {s t u : State} (hhead : evaluate rounds room head s = .ok (.native fn) t)
    (hargs : Action.inside .arguments room (fun room => evaluateEach rounds room tail) t =
      .ok args u) :
    evaluateForm rounds room (head :: tail) s = fn.callWithin room args u := by
  unfold evaluateForm
  rw [bind_of_ok hhead]
  exact bind_of_ok hargs _

theorem callWithin_print_error {args : List Value} {room : Nat} {f : Fault}
    (hroom : Host.frames (.native .print) ≤ room)
    (h : Value.displayAllWithin (room - Host.frames (.native .print)) args = .error f) (s : State) :
    Native.print.callWithin room args s = .error (.fault f) s := by
  have hprint : Native.printAll (room - Host.frames (.native .print)) args =
      (throw (.fault f) : Action Unit) := by
    unfold Native.printAll
    rw [h]
    rfl
  rw [Native.callWithin, Action.inside, Host.inside_of_le hroom]
  simp only [Native.run, hprint]
  rfl

end Host

/-! ### A product that cannot be printed -/

/-- A product is computed however long it is, and printing it is what fails. -/
theorem ends_print_product {m n : Int} (h : LongInt (m * n)) (c : Console) :
    Ends (.expr [.name "print", .expr [.operator (.arithmetic .star), .int m, .int n]])
      ⟨Environment.initial, c⟩ (.error (.fault .numberTooLong) ⟨Environment.initial, c⟩) := by
  have hprint : evaluate 0 998 (.name "print") ⟨Environment.initial, c⟩ =
      .ok (.native .print) ⟨Environment.initial, c⟩ := rfl
  have hproduct : Action.inside .arguments 998 (fun room => evaluateEach 0 room
      [.expr [.operator (.arithmetic .star), .int m, .int n]]) ⟨Environment.initial, c⟩ =
        .ok [.int (m * n)] ⟨Environment.initial, c⟩ := rfl
  have hcall : Native.print.callWithin 998 [.int (m * n)] ⟨Environment.initial, c⟩ =
      .error (.fault .numberTooLong) ⟨Environment.initial, c⟩ :=
    callWithin_print_error (by decide) (Value.displayAllWithin_long h (by decide) []) _
  have hrun : evaluate 0 Host.stack
      (.expr [.name "print", .expr [.operator (.arithmetic .star), .int m, .int n]])
        ⟨Environment.initial, c⟩ = .error (.fault .numberTooLong) ⟨Environment.initial, c⟩ := by
    rw [evaluate, Action.inside, Host.inside_of_le (Host.frames_le_stack _)]
    exact (evaluateForm_native hprint hproduct).trans hcall
  exact ⟨0, evalForm_of_error hrun, by simp [Finished]⟩

theorem longInt_mul_ten : LongInt (Nat.pow 10 4299 * 10) := by
  unfold LongInt
  decide +kernel

/-- Two integers that can be read, with a product that cannot be printed. -/
theorem ends_outcome_print : ∃ node s r,
    node = .expr [.name "print",
      .expr [.operator (.arithmetic .star), .int (Nat.pow 10 4299), .int 10]] ∧
    s = ⟨Environment.initial, Console.ofInput "" .closed 30⟩ ∧
    r = .error (.fault .numberTooLong) s ∧ node.IsForm ∧ s.console.inputEnd ≠ .interrupted ∧
    Ends node s r ∧ Outcome node r := by
  refine ⟨_, _, _, rfl, rfl, rfl, ?_⟩
  have hforms : (Node.expr [.name "print",
      .expr [.operator (.arithmetic .star), .int (Nat.pow 10 4299), .int 10]]).IsForm := by
    simp [Node.IsForm, Node.AreForms]
  have hends := ends_print_product longInt_mul_ten (Console.ofInput "" .closed 30)
  exact ⟨hforms, by simp [Console.ofInput], hends,
    ends_outcome hforms (by simp [Console.ofInput]) hends⟩

/-- In a new interpreter, on an input that is at its end, a form of the language comes to neither a
value nor an error of the language. -/
theorem ends_without_value_or_error : ∃ node s r,
    node = .expr [.name "print",
      .expr [.operator (.arithmetic .star), .int (Nat.pow 10 4299), .int 10]] ∧
    s = ⟨Environment.initial, Console.ofInput "" .closed 30⟩ ∧ node.IsForm ∧ Ends node s r ∧
    (∀ v t, r ≠ .ok v t) ∧ ∀ e t, r ≠ .error (.error e) t :=
  ⟨_, _, _, rfl, rfl, by simp [Node.IsForm, Node.AreForms],
    ends_print_product longInt_mul_ten (Console.ofInput "" .closed 30), by simp, by simp⟩

end MiniLisp
