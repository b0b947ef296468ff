import MiniLisp.Proofs.Evaluation.Triple
import MiniLisp.Proofs.Value.Data

/-!
# Contracts of evaluation

A `Contract` is an invariant of states, with the values that forms have while it holds and the
reasons for which they halt. What the evaluator does on its own, printing, reading, logging and
looping, is answered for once and for all in its fields; what depends on the form is left to
`Contract.form`, which looks at a head with its arguments, and `Contract.unnested`, which looks at
the other forms. `Contract.evaluation` puts the two together.
-/

namespace MiniLisp

open MiniLisp.Action

/-! ## Contracts -/

/-- An invariant of states that printing, reading and logging keep, with the reasons for which
forms may halt while it holds, and the values that they may have. -/
structure Contract (inv : State → Prop) (stop : Halt → State → Prop) (good : Value → Prop) :
    Prop where
  data : ∀ v : Value, v.IsData → good v
  write : ∀ s text, inv s → inv { s with console := s.console.write text }
  log : ∀ s level part message,
    inv s → inv { s with console := s.console.log level part message }
  read : ∀ s, inv s → inv { s with console := s.console.readLine.2 }
  error : ∀ s e, inv s → (∀ x, e ≠ .unbound x) → stop (.error e) s
  interrupted : ∀ s, inv s → s.console.inputEnd = .interrupted → stop (.fault .interrupted) s
  outOfRounds : ∀ s, inv s → stop .outOfRounds s
  tooDeep : ∀ s, inv s → stop (.fault .nestedTooDeeply) s

theorem Console.readLine_interrupted {c : Console} (h : c.readLine.1 = .interrupted) :
    c.readLine.2.inputEnd = .interrupted := by
  unfold Console.readLine at h ⊢
  split at h
  · rename_i hempty
    rw [if_pos hempty]
    split at h
    · cases h
    · cases h
    · rename_i hend
      exact hend
  · cases h

/-- A form may halt at the call of a value with arguments: these have no text to print, or the
operator has no result, in the room that is there. -/
inductive CallHalts [Host] : Value → List Value → Halt → Prop where
  | native {fn : Native} {args : List Value} {room : Nat} {f : Fault}
      (hfn : ∀ name, fn ≠ .echo name) (h : Value.displayAllWithin room args = .error f) :
      CallHalts (.native fn) args (.fault f)
  | operator {op : Operator} {args : List Value} {room : Nat} {halt : Halt}
      (h : Value.applyOperatorWithin room op args = .error halt) :
      CallHalts (.operator op) args halt

/-- From some state a head and its arguments have been evaluated to these values, which has led
to the state at hand. -/
def Evaluated [Host] (rounds room : Nat) (head : Node) (tail : List Node) (fn : Value)
    (args : List Value) (s' : State) : Prop :=
  ∃ s t, evaluate rounds room head s = .ok fn t ∧
    Action.inside .arguments room (fun room => evaluateEach rounds room tail) t = .ok args s'

section Contract

variable {inv : State → Prop} {stop : Halt → State → Prop} {good : Value → Prop}
  {rounds room : Nat}

theorem Contract.fail (h : Contract inv stop good) {α : Type} {P : α → Prop} {e : EvalError}
    (he : ∀ x, e ≠ .unbound x) : Gives inv stop P (Action.fail e) :=
  .halt fun s hs => h.error s e hs he

theorem Contract.condition (h : Contract inv stop good) (form : SpecialForm) (v : Value) :
    Gives inv stop (fun _ => True) (conditionOf form v) := by
  cases v with
  | bool b => exact .value trivial
  | _ => exact h.fail (by simp)

theorem Contract.readText (h : Contract inv stop good) :
    Gives inv stop (fun _ => True) Native.readText := by
  rw [readText_eq]
  have hread : Triple inv (withConsole Console.readLine)
      (fun read s => inv s ∧ (read = .interrupted → s.console.inputEnd = .interrupted)) stop :=
    fun s hs => ⟨h.read s hs, Console.readLine_interrupted⟩
  apply hread.bind
  intro read
  cases read with
  | line cs => exact fun s hs => ⟨trivial, hs.1⟩
  | ended => exact fun s hs => h.error s _ hs.1 (by simp)
  | failed reason => exact fun s hs => h.error s _ hs.1 (by simp)
  | interrupted => exact fun s hs => h.interrupted s hs.1 (hs.2 rfl)

variable [Host]

/-- The call of a native function, from states in which its arguments have texts or it may halt
because they have none. -/
theorem Contract.native (h : Contract inv stop good) {pre : State → Prop} {fn : Native}
    {args : List Value} (hpre : ∀ s, pre s → inv s)
    (hcall : ∀ halt s, pre s → CallHalts (.native fn) args halt → stop halt s)
    (hargs : ∀ v ∈ args, good v) :
    Triple pre (fn.callWithin room args) (fun v s => good v ∧ inv s) stop := by
  refine .inside (fun left => ?_) fun s hs => h.tooDeep s (hpre s hs)
  have hprint : (∀ name, fn ≠ .echo name) →
      Triple pre (Native.printAll left args) (fun _ s => True ∧ inv s) stop := by
    intro hfn
    have htext : Triple pre (Action.ofFaulty (Value.displayAllWithin left args)) (fun _ => inv)
        stop :=
      .ofFaulty (fun _ s _ hs => hpre s hs) fun f s hf hs => hcall _ s hs (.native hfn hf)
    exact htext.bind fun text s hs => ⟨trivial, h.write s text hs⟩
  have hwrite : ∀ text, Gives inv stop (fun _ => True) (Action.onConsole (·.write text)) :=
    fun text => .onConsole fun s hs => h.write s text hs
  have hresults : Triple pre (fn.run left args) (fun vs s => (∀ v ∈ vs, good v) ∧ inv s) stop := by
    cases fn with
    | print =>
      apply (hprint (by simp)).bind
      intro _ s hs
      exact ⟨List.forall_mem_nil _, hs.2⟩
    | println =>
      apply (hprint (by simp)).bind
      intro _
      have hnone : Gives inv stop (fun vs => ∀ v ∈ vs, good v) (pure []) :=
        .value (List.forall_mem_nil _)
      exact Triple.mono ((hwrite "\n").bind fun _ _ => hnone) (fun s hs => hs.2) fun _ _ hs => hs
    | input =>
      apply (hprint (by simp)).bind
      intro _
      have hline : ∀ text : String,
          Gives inv stop (fun vs => ∀ v ∈ vs, good v) (pure [Value.str text]) := by
        intro text
        apply Gives.value
        rintro v hv
        rw [List.mem_singleton.mp hv]
        exact h.data _ trivial
      exact Triple.mono (h.readText.bind fun text _ => hline text) (fun s hs => hs.2)
        fun _ _ hs => hs
    | echo name => exact fun s hs => ⟨hargs, hpre s hs⟩
  rw [map_eq_pure_bind]
  apply hresults.bind
  intro vs s hs
  refine ⟨?_, hs.2⟩
  rcases Value.collapse_cases vs with hmem | hdata
  · exact hs.1 _ hmem
  · exact h.data _ hdata

/-- The application of an operator, likewise. -/
theorem Contract.operator (h : Contract inv stop good) {pre : State → Prop} {op : Operator}
    {args : List Value} (hpre : ∀ s, pre s → inv s)
    (hcall : ∀ halt s, pre s → CallHalts (.operator op) args halt → stop halt s)
    (hargs : ∀ v ∈ args, good v) :
    Triple pre (Action.ofExcept (Value.applyOperatorWithin room op args))
      (fun v s => good v ∧ inv s) stop := by
  refine .ofExcept ?_ fun halt s hhalt hs => hcall halt s hs (.operator hhalt)
  intro v s hv hs
  refine ⟨?_, hpre s hs⟩
  rcases Value.applyOperatorWithin_cases hv with hmem | hdata
  · exact hargs v hmem
  · exact h.data v hdata

/-- The test of a form. -/
theorem Contract.test (h : Contract inv stop good) (form : SpecialForm) {run : Nat → Action Value}
    (hrun : ∀ left, Gives inv stop good (run left)) :
    Gives inv stop (fun _ => True) (testWithin form room run) :=
  .inside (fun left => (hrun left).bind fun v _ => h.condition form v) h.tooDeep

/-! ### Forms, from those they are made of -/

theorem Contract.each {nodes : List Node}
    (hnodes : ∀ node ∈ nodes, Gives inv stop good (evaluate rounds room node)) :
    Gives inv stop (fun vs => ∀ v ∈ vs, good v) (evaluateEach rounds room nodes) := by
  induction nodes with
  | nil =>
    rw [evaluateEach]
    exact .value (List.forall_mem_nil _)
  | cons node nodes ih =>
    rw [evaluateEach]
    apply (hnodes node List.mem_cons_self).bind
    intro v hv
    apply (ih fun n hn => hnodes n (List.mem_cons_of_mem node hn)).bind
    intro vs hvs
    exact .value (List.forall_mem_cons.mpr ⟨hv, hvs⟩)

theorem Contract.block {nodes : List Node}
    (hnodes : ∀ node ∈ nodes, Gives inv stop good (evaluate rounds room node)) :
    ∀ last, good last → Gives inv stop good (evaluateBlock rounds room last nodes) := by
  induction nodes with
  | nil =>
    intro last hlast
    rw [evaluateBlock]
    exact .value hlast
  | cons node nodes ih =>
    intro last _
    rw [evaluateBlock]
    apply (hnodes node List.mem_cons_self).bind
    exact ih fun n hn => hnodes n (List.mem_cons_of_mem node hn)

/-- A head with arguments. The head may have values of its own, of which only the special form
that binds names is of consequence: where it can be one, the name that stands second of three
items may be bound. -/
theorem Contract.form (h : Contract inv stop good) (heads : Value → Prop) {head : Node}
    {tail : List Node} (hhead : Gives inv stop heads (evaluate rounds room head))
    (htail : ∀ node ∈ tail, ∀ left, Gives inv stop good (evaluate rounds left node))
    (hdefine : heads (.special .set) → ∀ x source, tail = [.name x, source] →
      ∀ v s, good v → inv s → inv { s with env := s.env.define x v })
    (hcall : ∀ fn args halt s, Evaluated rounds room head tail fn args s → inv s →
      CallHalts fn args halt → stop halt s) :
    Gives inv stop good (evaluateForm rounds room (head :: tail)) := by
  have hnull : good .null := h.data _ trivial
  -- the arguments of a call, with what is known of where their values come from
  have hargs : ∀ fn, Triple
      (fun t => (heads fn ∧ inv t) ∧ ∃ s, inv s ∧ evaluate rounds room head s = .ok fn t)
      (Action.inside .arguments room fun room => evaluateEach rounds room tail)
      (fun args s => (∀ v ∈ args, good v) ∧ inv s ∧ Evaluated rounds room head tail fn args s)
      stop := by
    intro fn
    have heach : Triple
        (fun t => (heads fn ∧ inv t) ∧ ∃ s, inv s ∧ evaluate rounds room head s = .ok fn t)
        (Action.inside .arguments room fun room => evaluateEach rounds room tail)
        (fun args s => (∀ v ∈ args, good v) ∧ inv s) stop :=
      Triple.mono
        (Gives.inside (fun left => Contract.each fun node hn => htail node hn left) h.tooDeep)
        (fun t ht => ht.1.2) fun _ _ hs => hs
    apply heach.remember.mono (fun _ ht => ht)
    rintro args s ⟨⟨hgood, hs⟩, t, ⟨_, r, _, hr⟩, ht⟩
    exact ⟨hgood, hs, r, t, hr, ht⟩
  unfold evaluateForm
  apply hhead.remember.bind
  intro fn
  cases fn with
  | special form =>
    apply Triple.of_fact (fun t ht => ht.1.1)
    intro hform
    have hlog : Triple
        (fun t => (heads (.special form) ∧ inv t) ∧
          ∃ s, inv s ∧ evaluate rounds room head s = .ok (.special form) t)
        (logSpecialForm form tail.length) (fun _ => inv) stop :=
      fun t ht => h.log t _ _ _ ht.1.2
    apply hlog.bind
    intro _
    refine Gives.inside (fun left => ?_) h.tooDeep
    have hnodes : ∀ node ∈ tail, Gives inv stop good (evaluate rounds left node) :=
      fun node hn => htail node hn left
    cases form with
    | list => exact (Contract.each hnodes).map fun vs _ => h.data _ trivial
    | block => exact Contract.block hnodes _ hnull
    | set =>
      simp only
      split
      · rename_i x source
        apply (hnodes source (by simp)).bind
        intro v hv
        have hbind : Gives inv stop (fun _ => True) (Action.define x v) :=
          fun s hs => ⟨trivial, hdefine hform x source rfl v s hv hs⟩
        exact hbind.bind fun _ _ => .value hv
      · exact h.fail (by simp)
      · exact h.fail (by simp)
    | cond =>
      simp only
      split
      · rename_i test yes
        apply (h.test .cond (htail test (by simp))).bind
        intro b _
        cases b with
        | false => exact .value hnull
        | true => exact hnodes yes (by simp)
      · rename_i test yes no
        apply (h.test .cond (htail test (by simp))).bind
        intro b _
        cases b with
        | false => exact hnodes no (by simp)
        | true => exact hnodes yes (by simp)
      · exact h.fail (by simp)
    | loop =>
      simp only
      split
      · exact h.fail (by simp)
      · rename_i test body
        refine Gives.whileTrue (h.test .loop (htail test (by simp))) ?_ h.outOfRounds rounds _ hnull
        exact .inside (fun inner =>
          Contract.block (fun node hn => htail node hn inner) _ hnull) h.tooDeep
  | native fn =>
    apply (hargs (.native fn)).bind
    intro args
    apply Triple.of_fact (fun s hs => hs.1)
    exact h.native (fun s hs => hs.2.1) fun halt s hs => hcall _ args halt s hs.2.2 hs.2.1
  | operator op =>
    apply (hargs (.operator op)).bind
    intro args
    apply Triple.of_fact (fun s hs => hs.1)
    exact h.operator (fun s hs => hs.2.1) fun halt s hs => hcall _ args halt s hs.2.2 hs.2.1
  | _ =>
    apply (hargs _).bind
    exact fun args s hs => h.error s _ hs.2.1 (by simp)

/-- A form that is no expression is a name or is quoted. -/
theorem Contract.unnested (h : Contract inv stop good) {node : Node}
    (hnode : ∀ items, node ≠ .expr items)
    (hlookup : ∀ x, node = .name x → Gives inv stop good (Action.lookup x))
    (hquoted : ∀ room f s, node.quotedWithin room = .error f → inv s → stop (.fault f) s) :
    Gives inv stop good (evaluate rounds room node) := by
  rw [evaluate]
  refine Gives.inside (fun left => ?_) h.tooDeep
  cases node with
  | expr items => exact absurd rfl (hnode items)
  | name x => exact hlookup x rfl
  | list items =>
    exact Triple.ofFaulty (fun v s hv hs => ⟨h.data v (Node.quotedWithin_isData hv), hs⟩)
      (hquoted left)
  | foreign text =>
    refine Gives.halt fun s hs => hquoted Host.stack _ s ?_ hs
    rw [Node.quotedWithin, Host.inside_of_le (Host.frames_le_stack _)]
  | _ => exact .value (h.data _ trivial)

/-- Forms of a kind keep to the contract if the names among them do, and if a head with arguments
does wherever those do that are of the kind. -/
theorem Contract.evaluation (h : Contract inv stop good) (kind : Node → Prop)
    (hlookup : ∀ x, kind (.name x) → Gives inv stop good (Action.lookup x))
    (hquoted : ∀ node room f s, kind node → (∀ items, node ≠ .expr items) →
      node.quotedWithin room = .error f → inv s → stop (.fault f) s)
    (hform : ∀ room head tail, kind (.expr (head :: tail)) →
      (∀ item ∈ head :: tail, kind item →
        ∀ left, Gives inv stop good (evaluate rounds left item)) →
          Gives inv stop good (evaluateForm rounds room (head :: tail))) (node : Node) :
    kind node → ∀ room, Gives inv stop good (evaluate rounds room node) := by
  induction node using Node.induction_unquoted with
  | expr items ih =>
    intro hkind room
    rw [evaluate]
    refine Gives.inside (fun left => ?_) h.tooDeep
    cases items with
    | nil =>
      show Gives inv stop good (evaluateForm rounds left [])
      rw [evaluateForm]
      exact h.fail (by simp)
    | cons head tail => exact hform left head tail hkind ih
  | other node hnode =>
    intro hkind room
    apply h.unnested hnode
    · intro x heq
      exact hlookup x (heq ▸ hkind)
    · exact fun room f s => hquoted node room f s hkind hnode

end Contract

end MiniLisp
