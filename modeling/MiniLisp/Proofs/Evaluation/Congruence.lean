import Mathlib.Tactic.Common
import MiniLisp.Interpreter
import MiniLisp.Node.Names

/-!
# Relations that evaluation respects

The evaluator is put together from few computations: it gives a value, halts, uses the console,
looks a name up, binds a name, walks a form or values, and runs computations in sequence, in loops
and in calls. A relation between computations that holds of these and is kept by sequences, loops
and calls therefore relates the evaluations of any form (`Respects.evaluation`), and only the names
that the form mentions are looked up and only those that it assigns are bound.

The two computations may have different bounds on their rounds and different room on the stack.
What a single run keeps is the case in which the relation looks at the first computation only.
-/

namespace MiniLisp

namespace Action

/-! ## Single computations -/

/-- Uses the console. -/
def withConsole {α : Type} (f : Console → α × Console) : Action α := fun s =>
  .ok (f s.console).1 { s with console := (f s.console).2 }

theorem onConsole_eq (f : Console → Console) : onConsole f = withConsole fun c => ((), f c) := rfl

/-- Looking a name up leaves the state as it is. -/
theorem lookup_apply (x : String) (s : State) :
    lookup x s = match s.env.get? x with
      | some v => .ok v s
      | none => .error (.error (.unbound x)) s := by
  unfold lookup Environment.lookup
  change EStateM.bind (fun t => .ok t t) _ s = _
  unfold EStateM.bind
  simp only
  cases s.env.get? x <;> rfl

/-! ## Computations in sequence -/

/-- A relation between computations that holds of values and halts, and of sequences if it holds
of their parts. -/
structure Sequential (R : ⦃α : Type⦄ → Action α → Action α → Prop) : Prop where
  value : ∀ {α : Type} (a : α), R (pure a) (pure a)
  halt : ∀ {α : Type} (h : Halt), R (throw h : Action α) (throw h)
  bind : ∀ {α β : Type} {a b : Action α} {f g : α → Action β}, R a b → (∀ v, R (f v) (g v)) →
    R (a >>= f) (b >>= g)

section Sequential

variable {R : ⦃α : Type⦄ → Action α → Action α → Prop}

theorem Sequential.map {α β : Type} (h : Sequential R) (f : α → β) {a b : Action α} (hab : R a b) :
    R (f <$> a) (f <$> b) := by
  rw [map_eq_pure_bind, map_eq_pure_bind]
  exact h.bind hab fun v => h.value (f v)

theorem Sequential.fail {α : Type} (h : Sequential R) (e : EvalError) :
    R (Action.fail e : Action α) (Action.fail e) :=
  h.halt (.error e)

theorem Sequential.ofExcept {α : Type} (h : Sequential R) (r : Except Halt α) :
    R (Action.ofExcept r) (Action.ofExcept r) := by
  cases r with
  | ok a => exact h.value a
  | error halt => exact h.halt halt

theorem Sequential.ofFaulty {α : Type} (h : Sequential R) (r : Except Fault α) :
    R (Action.ofFaulty r) (Action.ofFaulty r) := by
  cases r with
  | ok a => exact h.value a
  | error f => exact h.halt (.fault f)

theorem Sequential.conditionOf (h : Sequential R) (form : SpecialForm) (v : Value) :
    R (conditionOf form v) (conditionOf form v) := by
  cases v with
  | bool b => exact h.value b
  | _ => exact h.fail _

/-- A call finds the stack full or does not, whichever computation makes it. -/
theorem Sequential.inside_of_eq [Host] {α : Type} (h : Sequential R) {room room' : Nat}
    {run run' : Nat → Action α} (call : Call) (hroom : room = room')
    (hrun : ∀ left left', left = left' → R (run left) (run' left')) :
    R (Action.inside call room run) (Action.inside call room' run') := by
  subst hroom
  unfold Action.inside
  by_cases hcall : Host.frames call ≤ room
  · rw [Host.inside_of_le hcall, Host.inside_of_le hcall]
    exact hrun _ _ rfl
  · rw [Host.inside_of_lt (Nat.not_le.mp hcall), Host.inside_of_lt (Nat.not_le.mp hcall)]
    exact h.halt _

/-- Loops with one bound are related where their tests and bodies are. -/
theorem Sequential.whileTrue (h : Sequential R) {test test' : Action Bool}
    {body body' : Action Value} (htest : R test test') (hbody : R body body') (rounds : Nat) :
    ∀ last,
      R (Action.whileTrue test body rounds last) (Action.whileTrue test' body' rounds last) := by
  induction rounds with
  | zero =>
    intro last
    exact h.halt .outOfRounds
  | succ rounds ih =>
    intro last
    refine h.bind htest fun b => ?_
    cases b with
    | false => exact h.value last
    | true => exact h.bind hbody ih

end Sequential

end Action

/-- Reading a line uses the console and nothing else. -/
theorem readText_eq : Native.readText =
    Action.withConsole Console.readLine >>= fun read =>
      match read with
      | .line cs => pure (String.ofList (Text.dropLineEnd cs))
      | .ended => Action.fail .inputEnded
      | .failed reason => Action.fail (.inputFailed reason)
      | .interrupted => throw (.fault .interrupted) := rfl

/-! ## Evaluation -/

variable [Host]

/-- A relation between computations that the evaluator respects, if it looks up only names that
it `reads` and binds only names that it `writes`, runs its loops with these bounds, and begins with
`rooms` that are related. -/
structure Respects (R : ⦃α : Type⦄ → Action α → Action α → Prop) (reads writes : String → Prop)
    (rounds rounds' : Nat) (rooms : Nat → Nat → Prop) : Prop extends Action.Sequential R where
  write : ∀ text, R (Action.onConsole (·.write text)) (Action.onConsole (·.write text))
  log : ∀ form arguments, R (logSpecialForm form arguments) (logSpecialForm form arguments)
  readText : R Native.readText Native.readText
  lookup : ∀ x, reads x → R (Action.lookup x) (Action.lookup x)
  define : ∀ x v, writes x → R (Action.define x v) (Action.define x v)
  loop : ∀ {test test' : Action Bool} {body body' : Action Value} (last : Value), R test test' →
    R body body' →
      R (Action.whileTrue test body rounds last) (Action.whileTrue test' body' rounds' last)
  inside : ∀ {α : Type} {room room' : Nat} {run run' : Nat → Action α} (call : Call),
    rooms room room' → (∀ left left', rooms left left' → R (run left) (run' left')) →
      R (Action.inside call room run) (Action.inside call room' run')
  quoted : ∀ {room room' : Nat} (node : Node), rooms room room' →
    R (Action.ofFaulty (node.quotedWithin room)) (Action.ofFaulty (node.quotedWithin room'))
  texts : ∀ {room room' : Nat} (args : List Value), rooms room room' →
    R (Action.ofFaulty (Value.displayAllWithin room args))
      (Action.ofFaulty (Value.displayAllWithin room' args))
  operator : ∀ {room room' : Nat} (op : Operator) (args : List Value), rooms room room' →
    R (Action.ofExcept (Value.applyOperatorWithin room op args))
      (Action.ofExcept (Value.applyOperatorWithin room' op args))

section Respects

variable {R : ⦃α : Type⦄ → Action α → Action α → Prop} {reads writes : String → Prop}
  {rounds rounds' : Nat} {rooms : Nat → Nat → Prop}

/-- With one bound on the rounds, loops are related as sequences are, and with one room on the
stack, both computations find that it is full or neither does. -/
theorem Respects.of_sequential (h : Action.Sequential R)
    (hwrite : ∀ text, R (Action.onConsole (·.write text)) (Action.onConsole (·.write text)))
    (hlog : ∀ form arguments, R (logSpecialForm form arguments) (logSpecialForm form arguments))
    (hreadText : R Native.readText Native.readText)
    (hlookup : ∀ x, reads x → R (Action.lookup x) (Action.lookup x))
    (hdefine : ∀ x v, writes x → R (Action.define x v) (Action.define x v)) (rounds : Nat) :
    Respects R reads writes rounds rounds Eq where
  toSequential := h
  write := hwrite
  log := hlog
  readText := hreadText
  lookup := hlookup
  define := hdefine
  loop last htest hbody := h.whileTrue htest hbody rounds last
  inside := h.inside_of_eq
  quoted _ hroom := hroom ▸ h.ofFaulty _
  texts _ hroom := hroom ▸ h.ofFaulty _
  operator _ _ hroom := hroom ▸ h.ofExcept _

/-- If every use of the console is related, so are those that the evaluator makes. -/
theorem Respects.of_console (h : Action.Sequential R)
    (hconsole : ∀ {α : Type} (f : Console → α × Console),
      R (Action.withConsole f) (Action.withConsole f))
    (hlookup : ∀ x, reads x → R (Action.lookup x) (Action.lookup x))
    (hdefine : ∀ x v, writes x → R (Action.define x v) (Action.define x v)) (rounds : Nat) :
    Respects R reads writes rounds rounds Eq := by
  refine .of_sequential h ?_ ?_ ?_ hlookup hdefine rounds
  · intro text
    rw [Action.onConsole_eq]
    exact hconsole _
  · intro form arguments
    unfold logSpecialForm
    rw [Action.onConsole_eq]
    exact hconsole _
  · rw [readText_eq]
    apply h.bind (hconsole _)
    intro read
    cases read with
    | line cs => exact h.value _
    | ended => exact h.fail _
    | failed reason => exact h.fail _
    | interrupted => exact h.halt _

/-! ### Calls -/

section Calls

variable {room room' : Nat}

theorem Respects.printAll (h : Respects R reads writes rounds rounds' rooms)
    (hroom : rooms room room') (args : List Value) :
    R (Native.printAll room args) (Native.printAll room' args) :=
  h.bind (h.texts args hroom) fun _ => h.write _

theorem Respects.native (h : Respects R reads writes rounds rounds' rooms)
    (hroom : rooms room room') (fn : Native) (args : List Value) :
    R (fn.callWithin room args) (fn.callWithin room' args) := by
  apply h.inside (.native fn) hroom
  intro left left' hleft
  apply h.map Value.collapse
  have hprint := h.printAll hleft args
  cases fn with
  | print => exact h.bind hprint fun _ => h.value _
  | println => exact h.bind hprint fun _ => h.bind (h.write _) fun _ => h.value _
  | input => exact h.bind hprint fun _ => h.bind h.readText fun _ => h.value _
  | echo name => exact h.value args

theorem Respects.test (h : Respects R reads writes rounds rounds' rooms) (hroom : rooms room room')
    (form : SpecialForm) {run run' : Nat → Action Value}
    (hrun : ∀ left left', rooms left left' → R (run left) (run' left')) :
    R (testWithin form room run) (testWithin form room' run') := by
  apply h.inside .condition hroom
  intro left left' hleft
  exact h.bind (hrun left left' hleft) fun v => h.conditionOf form v

end Calls

/-! ### Forms, from those they are made of -/

/-- The form is evaluated alike wherever the rooms are related. -/
def Related (R : ⦃α : Type⦄ → Action α → Action α → Prop) (rounds rounds' : Nat)
    (rooms : Nat → Nat → Prop) (node : Node) : Prop :=
  ∀ room room', rooms room room' → R (evaluate rounds room node) (evaluate rounds' room' node)

section Forms

variable {room room' : Nat} {nodes items : List Node}

theorem Respects.each (h : Respects R reads writes rounds rounds' rooms) (hroom : rooms room room')
    (hnodes : ∀ node ∈ nodes, Related R rounds rounds' rooms node) :
    R (evaluateEach rounds room nodes) (evaluateEach rounds' room' nodes) := by
  induction nodes with
  | nil =>
    rw [evaluateEach, evaluateEach]
    exact h.value []
  | cons node nodes ih =>
    rw [evaluateEach, evaluateEach]
    apply h.bind (hnodes node List.mem_cons_self room room' hroom)
    intro value
    apply h.bind (ih fun n hn => hnodes n (List.mem_cons_of_mem node hn))
    intro values
    exact h.value _

theorem Respects.block (h : Respects R reads writes rounds rounds' rooms) (hroom : rooms room room')
    (hnodes : ∀ node ∈ nodes, Related R rounds rounds' rooms node) :
    ∀ last, R (evaluateBlock rounds room last nodes) (evaluateBlock rounds' room' last nodes) := by
  induction nodes with
  | nil =>
    intro last
    rw [evaluateBlock, evaluateBlock]
    exact h.value last
  | cons node nodes ih =>
    intro last
    rw [evaluateBlock, evaluateBlock]
    apply h.bind (hnodes node List.mem_cons_self room room' hroom)
    intro value
    exact ih (fun n hn => hnodes n (List.mem_cons_of_mem node hn)) value

/-- The value of a head with arguments, when these and the head are evaluated alike. -/
theorem Respects.form (h : Respects R reads writes rounds rounds' rooms) (hroom : rooms room room')
    (hitems : ∀ node ∈ items, Related R rounds rounds' rooms node)
    (hwrites : ∀ head x source, items = [head, .name x, source] → writes x) :
    R (evaluateForm rounds room items) (evaluateForm rounds' room' items) := by
  cases items with
  | nil =>
    rw [evaluateForm, evaluateForm]
    exact h.fail _
  | cons head tail =>
    have htail : ∀ node ∈ tail, Related R rounds rounds' rooms node :=
      fun node hn => hitems node (List.mem_cons_of_mem head hn)
    have hargs : R (Action.inside .arguments room fun room => evaluateEach rounds room tail)
        (Action.inside .arguments room' fun room => evaluateEach rounds' room tail) :=
      h.inside .arguments hroom fun left left' hleft => h.each hleft htail
    unfold evaluateForm
    apply h.bind (hitems head List.mem_cons_self room room' hroom)
    intro fn
    cases fn with
    | special form =>
      apply h.bind (h.log form tail.length)
      intro _
      apply h.inside (.special form) hroom
      intro left left' hleft
      cases form with
      | list => exact h.map _ (h.each hleft htail)
      | block => exact h.block hleft htail _
      | set =>
        simp only
        split
        · rename_i x source
          apply h.bind (htail source (by simp) left left' hleft)
          intro value
          apply h.bind (h.define x value (hwrites head x source rfl))
          intro _
          exact h.value value
        · exact h.fail _
        · exact h.fail _
      | cond =>
        simp only
        split
        · rename_i test yes
          apply h.bind (h.test hleft .cond (htail test (by simp)))
          intro b
          cases b with
          | false => exact h.value _
          | true => exact htail yes (by simp) left left' hleft
        · rename_i test yes no
          apply h.bind (h.test hleft .cond (htail test (by simp)))
          intro b
          cases b with
          | false => exact htail no (by simp) left left' hleft
          | true => exact htail yes (by simp) left left' hleft
        · exact h.fail _
      | loop =>
        simp only
        split
        · exact h.fail _
        · rename_i test body
          apply h.loop
          · exact h.test hleft .loop (htail test (by simp))
          · exact h.inside (.special .block) hleft fun _ _ hinner => h.block hinner htail _
    | native fn => exact h.bind hargs fun args => h.native hroom fn args
    | operator op => exact h.bind hargs fun args => h.operator op args hroom
    | _ => exact h.bind hargs fun args => h.fail _

/-- A form that is no expression is one computation. -/
theorem Respects.unnested (h : Respects R reads writes rounds rounds' rooms) {node : Node}
    (hnode : ∀ items, node ≠ .expr items) (hreads : ∀ x, node.Mentions x → reads x) :
    Related R rounds rounds' rooms node := by
  intro room room' hroom
  rw [evaluate, evaluate]
  apply h.inside _ hroom
  intro left left' hleft
  cases node with
  | expr items => exact absurd rfl (hnode items)
  | name x => exact h.lookup x (hreads x (Node.mem_unquoted_self _))
  | list items => exact h.quoted _ hleft
  | foreign text => exact h.halt _
  | _ => exact h.value _

end Forms

/-- What is related computation by computation is related form by form. -/
theorem Respects.evaluation (h : Respects R reads writes rounds rounds' rooms) (node : Node) :
    (∀ x, node.Mentions x → reads x) → (∀ x, node.Assigns x → writes x) →
      Related R rounds rounds' rooms node := by
  induction node using Node.induction_unquoted with
  | expr items ih =>
    intro hreads hwrites room room' hroom
    rw [evaluate, evaluate]
    apply h.inside _ hroom
    intro left left' hleft
    apply h.form hleft
    · exact fun item hitem => ih item hitem (fun x hx => hreads x (hx.of_item hitem))
        fun x hx => hwrites x (hx.of_item hitem)
    · intro head x source heq
      exact hwrites x ⟨head, source, by rw [heq]; exact Node.mem_unquoted_self _⟩
  | other node hnode => exact fun hreads _ => h.unnested hnode hreads

end Respects

end MiniLisp
