import MiniLisp.Proofs.Evaluation.Ending

/-!
# What evaluation depends on

Two runs of a form from states with the same console, and the same bindings of the names that the
form mentions, go on in step: `evalForm_agrees` says so of every number of rounds, and
`evalForm_reads_only` of the way in which the form ends, if it does. Whatever else is bound is
never seen.
-/

namespace MiniLisp

/-- The states have the same console and the same bindings of these names. -/
structure Agree (names : String → Prop) (s t : State) : Prop where
  console : s.console = t.console
  env : ∀ x, names x → s.env.get? x = t.env.get? x

theorem Agree.symm {names : String → Prop} {s t : State} (h : Agree names s t) :
    Agree names t s :=
  ⟨h.console.symm, fun x hx => (h.env x hx).symm⟩

/-- The results are the same value or the same halt, in states that agree on these names. -/
inductive SameEnd (names : String → Prop) {α : Type} :
    EStateM.Result Halt State α → EStateM.Result Halt State α → Prop where
  | value {v : α} {s t : State} (h : Agree names s t) : SameEnd names (.ok v s) (.ok v t)
  | halt {halt : Halt} {s t : State} (h : Agree names s t) :
      SameEnd names (.error halt s) (.error halt t)

namespace Action

/-- From states that agree on these names, the computations come to the same end. -/
def AgreesWith (names : String → Prop) {α : Type} (a b : Action α) : Prop :=
  ∀ s t, Agree names s t → SameEnd names (a s) (b t)

variable {names : String → Prop}

theorem AgreesWith.bind {α β : Type} {a b : Action α} {f g : α → Action β}
    (hab : AgreesWith names a b) (hfg : ∀ v, AgreesWith names (f v) (g v)) :
    AgreesWith names (a >>= f) (b >>= g) := by
  intro s t h
  have hfirst := hab s t h
  show SameEnd names (EStateM.bind a f s) (EStateM.bind b g t)
  unfold EStateM.bind
  generalize a s = r at hfirst ⊢
  generalize b t = q at hfirst ⊢
  cases hfirst with
  | @value v s' t' h' => exact hfg v s' t' h'
  | halt h' => exact .halt h'

theorem agreesWith_lookup {x : String} (hx : names x) :
    AgreesWith names (lookup x) (lookup x) := by
  intro s t h
  rw [lookup_apply, lookup_apply, h.env x hx]
  cases t.env.get? x with
  | some v => exact .value h
  | none => exact .halt h

theorem agreesWith_withConsole {α : Type} (f : Console → α × Console) :
    AgreesWith names (withConsole f) (withConsole f) := by
  intro s t h
  unfold withConsole
  rw [h.console]
  exact .value ⟨rfl, h.env⟩

theorem agreesWith_define (x : String) (v : Value) :
    AgreesWith names (define x v) (define x v) := by
  intro s t h
  refine .value ⟨h.console, ?_⟩
  intro y hy
  show (s.env.insert x v).get? y = (t.env.insert x v).get? y
  rw [Table.get?_insert, Table.get?_insert, h.env y hy]

end Action

theorem SameEnd.finished {names : String → Prop} {α : Type} {r q : EStateM.Result Halt State α}
    (h : SameEnd names r q) (hr : Finished r) : Finished q := by
  cases h with
  | value => exact hr
  | halt => exact hr

section Host

variable [Host]

/-- Evaluation is put together from computations that see these names only. -/
theorem respects_agreesWith (names : String → Prop) (rounds : Nat) :
    Respects (fun _ => Action.AgreesWith names) names (fun _ => True) rounds rounds
      Eq := by
  apply Respects.of_console
  · exact {
      value := fun _ _ _ h => .value h
      halt := fun _ _ _ h => .halt h
      bind := .bind }
  · intro α f
    exact Action.agreesWith_withConsole f
  · intro x hx
    exact Action.agreesWith_lookup hx
  · intro x v _
    exact Action.agreesWith_define x v

/-- Two runs with the same number of rounds come to the same end. -/
theorem evalForm_agrees (rounds : Nat) (node : Node) :
    Action.AgreesWith node.Mentions (evalForm rounds node) (evalForm rounds node) := by
  intro s t h
  have hsame := (respects_agreesWith node.Mentions rounds).evaluation node
    (fun _ hx => hx) (fun _ _ => trivial) Host.stack Host.stack rfl s t h
  unfold evalForm
  generalize evaluate rounds Host.stack node s = r at hsame ⊢
  generalize evaluate rounds Host.stack node t = q at hsame ⊢
  cases hsame with
  | value h' => exact .value h'
  | halt h' => exact .halt h'

/-- A form reads only the names that it mentions. From states that agree on these and have the
same console, either it ends from neither, or it ends from both in its one way: with the same
value or the same error, and with consoles that have read and printed the same, and the two
states that it leaves agree on these names again. -/
theorem evalForm_reads_only (node : Node) (s t : State) (h : Agree node.Mentions s t) :
    ((∀ r, ¬ Ends node s r) ∧ ∀ r, ¬ Ends node t r) ∨
      ∃ r q, (∀ r', Ends node s r' ↔ r' = r) ∧ (∀ q', Ends node t q' ↔ q' = q) ∧
        SameEnd node.Mentions r q := by
  -- an end from one state is, within the same rounds, one from the other
  have hstep : ∀ {s t r}, Agree node.Mentions s t → Ends node s r →
      ∃ q, Ends node t q ∧ SameEnd node.Mentions r q := by
    intro s t r h hr
    obtain ⟨rounds, rfl, hfinished⟩ := hr
    have hsame := evalForm_agrees rounds node s t h
    exact ⟨_, ⟨rounds, rfl, hsame.finished hfinished⟩, hsame⟩
  by_cases hs : ∃ r, Ends node s r
  · right
    obtain ⟨r, hr⟩ := hs
    obtain ⟨q, hq, hsame⟩ := hstep h hr
    refine ⟨r, q, ?_, ?_, hsame⟩
    · intro r'
      exact ⟨hr.unique, fun heq => heq ▸ hr⟩
    · intro q'
      exact ⟨hq.unique, fun heq => heq ▸ hq⟩
  · left
    refine ⟨fun r hr => hs ⟨r, hr⟩, ?_⟩
    intro q hq
    obtain ⟨r, hr, _⟩ := hstep h.symm hq
    exact hs ⟨r, hr⟩

end Host

/-- A loop that counts, beside a quoted list: what is bound to the name in the list is not
seen. -/
theorem evalForm_reads_only_loop :
    ∃ (node : Node) (s t : State),
      node = .expr [.name "block",
        .expr [.name "while", .expr [.operator (.relational .less), .name "i", .int 2],
          .expr [.name "set", .name "i", .expr [.operator (.arithmetic .plus), .name "i", .int 1]]],
        .list [.name "z"]] ∧
      s = ⟨Environment.initial.define "i" (.int 0), .ofInput "" .closed 30⟩ ∧
      t = ⟨(Environment.initial.define "i" (.int 0)).define "z" .null, .ofInput "" .closed 30⟩ ∧
      Agree node.Mentions s t ∧
      (((∀ r, ¬ Ends node s r) ∧ ∀ r, ¬ Ends node t r) ∨
        ∃ r q, (∀ r', Ends node s r' ↔ r' = r) ∧ (∀ q', Ends node t q' ↔ q' = q) ∧
          SameEnd node.Mentions r q) := by
  refine ⟨_, _, _, rfl, rfl, rfl, ?_⟩
  suffices hagree : Agree _ _ _ from ⟨hagree, evalForm_reads_only _ _ _ hagree⟩
  refine ⟨rfl, ?_⟩
  intro x hx
  have hz : x ≠ "z" := by
    intro heq
    subst heq
    simp [Node.Mentions, Node.unquoted, Node.unquotedEach] at hx
  show _ = (Table.insert _ "z" _).get? x
  rw [Table.get?_insert, if_neg hz]

end MiniLisp
