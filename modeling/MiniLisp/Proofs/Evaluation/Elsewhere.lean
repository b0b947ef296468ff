import MiniLisp.Proofs.Evaluation.Ending
import MiniLisp.Proofs.Evaluation.Frame
import MiniLisp.Proofs.Evaluation.Outputs

/-!
# Runs that read nothing

A run that ends with a value and takes nothing from the input does not depend on the console, and
in the environment it depends on the names that the form mentions. `Ends.elsewhere` makes the same
run from another state: the form has the same value there and prints the same.
-/

namespace MiniLisp

/-- Environments that the relation relates cannot be told apart by looking up names that are
`reads`, and stay related when names that are `writes` are bound. -/
structure Tracks (E : Environment → Environment → Prop) (reads writes : String → Prop) :
    Prop where
  get : ∀ {d e : Environment}, E d e → ∀ x, reads x → d.get? x = e.get? x
  insert : ∀ {d e : Environment}, E d e → ∀ x v, writes x → E (d.insert x v) (e.insert x v)

/-- The environments have the same bindings of these names. -/
def SameOn (names : String → Prop) (d e : Environment) : Prop :=
  ∀ x, names x → d.get? x = e.get? x

theorem tracks_sameOn (names writes : String → Prop) : Tracks (SameOn names) names writes where
  get h := h
  insert h x v _ := by
    intro y hy
    rw [Table.get?_insert, Table.get?_insert, h y hy]

theorem tracks_eq (reads writes : String → Prop) : Tracks Eq reads writes where
  get h _ _ := by rw [h]
  insert h _ _ _ := by rw [h]

/-- Runs from `s` to `s'` and from `t` to `t'` have printed the same, the second has read nothing,
and the environments are related. -/
structure InStep (E : Environment → Environment → Prop) (s s' t t' : State) : Prop where
  env : E s'.env t'.env
  input : t'.console.input = t.console.input
  out : ∃ text, s'.console.out = s.console.out ++ text ∧ t'.console.out = t.console.out ++ text

theorem InStep.of_out {E : Environment → Environment → Prop} {s s' t t' : State}
    (env : E s'.env t'.env) (input : t'.console.input = t.console.input)
    (out : s'.console.out = s.console.out) (out' : t'.console.out = t.console.out) :
    InStep E s s' t t' :=
  ⟨env, input, "", by rw [out, String.append_empty], by rw [out', String.append_empty]⟩

theorem InStep.trans {E : Environment → Environment → Prop} {s s' s'' t t' t'' : State}
    (h : InStep E s s' t t') (h' : InStep E s' s'' t' t'') : InStep E s s'' t t'' := by
  obtain ⟨text, hs, ht⟩ := h.out
  obtain ⟨text', hs', ht'⟩ := h'.out
  exact ⟨h'.env, h'.input.trans h.input, text ++ text', by rw [hs', hs, String.append_assoc],
    by rw [ht', ht, String.append_assoc]⟩

namespace Action

/-- The first computation takes from the input at most. Where it gives a value and has taken
nothing, so does the second from any related environment. -/
structure Mirrors (E : Environment → Environment → Prop) {α : Type} (a b : Action α) : Prop where
  takes : ∀ s, (a.after s).console.input <:+ s.console.input
  run : ∀ {s s' t : State} {v : α}, E s.env t.env → a s = .ok v s' →
    s'.console.input = s.console.input → ∃ t', b t = .ok v t' ∧ InStep E s s' t t'

variable {E : Environment → Environment → Prop}

theorem mirrors_halt {α : Type} (halt : Halt) : Mirrors E (throw halt : Action α) (throw halt) where
  takes _ := List.suffix_refl _
  run _ h _ := nomatch h

theorem mirrors_pure {α : Type} (v : α) : Mirrors E (pure v : Action α) (pure v) where
  takes _ := List.suffix_refl _
  run henv h _ := by
    cases h
    exact ⟨_, rfl, .of_out henv rfl rfl rfl⟩

theorem Mirrors.bind {α β : Type} {a b : Action α} {f g : α → Action β} (hab : Mirrors E a b)
    (hfg : ∀ v, Mirrors E (f v) (g v)) : Mirrors E (a >>= f) (b >>= g) where
  takes s := by
    have hfirst := hab.takes s
    rw [after_bind]
    unfold after at hfirst
    cases heq : a s with
    | ok v s' =>
      rw [heq] at hfirst
      exact ((hfg v).takes s').trans hfirst
    | error halt s' =>
      rw [heq] at hfirst
      exact hfirst
  run {s s'' t w} henv h hinput := by
    obtain ⟨v, s', hv, hw⟩ := exists_of_bind_ok h
    have hfirst := hab.takes s
    have hsecond := (hfg v).takes s'
    rw [after, hv] at hfirst
    rw [after, hw] at hsecond
    -- neither part has taken anything, since together they have not
    have hmid : s'.console.input = s.console.input :=
      hfirst.eq_of_length_le (hinput ▸ hsecond.length_le)
    obtain ⟨t', hb, hstep⟩ := hab.run henv hv hmid
    obtain ⟨t'', hg, hstep'⟩ := (hfg v).run hstep.env hw (hinput.trans hmid.symm)
    exact ⟨t'', (bind_of_ok hb g).trans hg, hstep.trans hstep'⟩

theorem mirrors_write (text : String) :
    Mirrors E (onConsole (·.write text)) (onConsole (·.write text)) where
  takes _ := List.suffix_refl _
  run {s s' t v} henv h _ := by
    cases h
    exact ⟨_, rfl, henv, rfl, text, rfl, rfl⟩

theorem log_input (c : Console) (level : LogLevel) (part message : String) :
    (c.log level part message).input = c.input ∧ (c.log level part message).out = c.out := by
  unfold Console.log
  split <;> exact ⟨rfl, rfl⟩

theorem mirrors_log (form : SpecialForm) (arguments : Nat) :
    Mirrors E (logSpecialForm form arguments) (logSpecialForm form arguments) where
  takes s := (s.console.follows_log _ _ _).input
  run {s s' t v} henv h _ := by
    cases h
    exact ⟨_, rfl, .of_out henv (log_input t.console _ _ _).1 (log_input s.console _ _ _).2
      (log_input t.console _ _ _).2⟩

/-- Whatever comes of reading a text, the console is as after reading a line. -/
theorem after_readText (s : State) :
    (Native.readText).after s = { s with console := s.console.readLine.2 } := by
  rw [readText_eq, after_bind, withConsole]
  cases s.console.readLine.1 <;> rfl

/-- A text that is read is missing from the input. -/
theorem length_lt_of_readText {s t : State} {text : String}
    (h : Native.readText s = .ok text t) : t.console.input.length < s.console.input.length := by
  rw [readText_eq] at h
  obtain ⟨read, u, hread, h⟩ := exists_of_bind_ok h
  cases hread
  cases hline : s.console.readLine.1 with
  | line cs =>
    rw [hline] at h
    cases h
    exact Console.length_lt_of_readLine (Prod.ext hline rfl)
  | _ =>
    rw [hline] at h
    cases h

theorem mirrors_readText : Mirrors E Native.readText Native.readText where
  takes s := by
    rw [after_readText]
    exact s.console.follows_readLine.input
  run _ h hinput := by
    have hlt := length_lt_of_readText h
    rw [hinput] at hlt
    exact absurd hlt (Nat.lt_irrefl _)

end Action

variable {E : Environment → Environment → Prop} {reads writes : String → Prop}

theorem mirrors_lookup (hE : Tracks E reads writes) {x : String} (hx : reads x) :
    Action.Mirrors E (Action.lookup x) (Action.lookup x) where
  takes s := (Action.after_lookup x s).symm ▸ List.suffix_refl _
  run {s s' t v} henv h _ := by
    rw [Action.lookup_apply] at h
    rw [Action.lookup_apply, ← hE.get henv x hx]
    cases heq : s.env.get? x with
    | none =>
      rw [heq] at h
      cases h
    | some w =>
      rw [heq] at h
      cases h
      exact ⟨t, rfl, .of_out henv rfl rfl rfl⟩

theorem mirrors_define (hE : Tracks E reads writes) {x : String} (v : Value) (hx : writes x) :
    Action.Mirrors E (Action.define x v) (Action.define x v) where
  takes _ := List.suffix_refl _
  run {s s' t _} henv h _ := by
    cases h
    exact ⟨_, rfl, .of_out (hE.insert henv x v hx) rfl rfl rfl⟩

variable [Host]

theorem respects_mirrors (hE : Tracks E reads writes) (rounds : Nat) :
    Respects (fun _ => Action.Mirrors E) reads writes rounds rounds Eq :=
  .of_sequential { value := Action.mirrors_pure, halt := Action.mirrors_halt, bind := .bind }
    Action.mirrors_write Action.mirrors_log Action.mirrors_readText
    (fun _ hx => mirrors_lookup hE hx) (fun _ v hx => mirrors_define hE v hx) rounds

/-- A form that gives a value and reads nothing gives this value, and prints the same, from every
state with a related environment. -/
theorem Ends.elsewhere {node : Node} (hE : Tracks E node.Mentions node.Assigns) {s s' t : State}
    {v : Value} (henv : E s.env t.env) (h : Ends node s (.ok v s'))
    (hinput : s'.console.input = s.console.input) :
    ∃ t', Ends node t (.ok v t') ∧ InStep E s s' t t' := by
  obtain ⟨rounds, hrun, _⟩ := h
  have hmirrors := (respects_mirrors hE rounds).evaluation node (fun _ hx => hx)
    (fun _ hx => hx) Host.stack Host.stack rfl
  obtain ⟨t', ht, hstep⟩ := hmirrors.run henv (evalForm_ok_iff.mp hrun) hinput
  exact ⟨t', ⟨rounds, evalForm_ok_iff.mpr ht, trivial⟩, hstep⟩

end MiniLisp
