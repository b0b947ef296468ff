import MiniLisp.Proofs.Evaluation.Outcome
import MiniLisp.Session.Prompt

/-!
# The lines of a dialogue

A line that does not quit is `Handled`: it is told something, is reported not to be read, has the
results of its forms shown, or has the error of its first form that halts reported. `runLine_ends`
says that every other line has no end, or `Breaks` the dialogue: an integer with more digits than
are read or written occurs in it, or a value for which the stack is too small when it is shown.
These are faults, and only errors are reported.
-/

namespace MiniLisp.Session

open MiniLisp.Action

/-! ## What is written -/

/-- The state with a text written to the first output. -/
def said (s : State) (text : String) : State := { s with console := s.console.write text }

/-- The state with an error reported. -/
def reported (coloured : Bool) (s : State) (report : String) : State :=
  { s with console := s.console.writeError (paint coloured .error report ++ "\n") }

/-- From the first console to the second, nothing but the log and at most one report has been
written to the second output. -/
def ReportsOnce (coloured : Bool) (c d : Console) : Prop :=
  ∃ b, c.Follows b ∧
    (d = b ∨ ∃ report, d = b.writeError (paint coloured .error report ++ "\n"))

/-- What each step does to the console, several do one after the other. -/
theorem rel_foldl {R : Console → Console → Prop} (hrefl : ∀ c, R c c)
    (htrans : ∀ {c d e}, R c d → R d e → R c e) {α : Type} {f : Console → α → Console}
    (h : ∀ c x, R c (f c x)) (xs : List α) : ∀ c : Console, R c (xs.foldl f c) := by
  induction xs with
  | nil => exact hrefl
  | cons x xs ih => exact fun c => htrans (h c x) (ih (f c x))

/-- What each line of the log does to the console, logging the reading of a text does. -/
theorem rel_logReading {R : Console → Console → Prop} (hrefl : ∀ c, R c c)
    (htrans : ∀ {c d e}, R c d → R d e → R c e)
    (hlog : ∀ (c : Console) level part message, R c (c.log level part message))
    (cs : List Char) (reading : Reading) (c : Console) : R c (logReading cs reading c) := by
  have htoken : ∀ (c : Console) (t : Token), R c ((tokenLines t).foldl (fun c content =>
      c.log .debug "risp.reader.lexer"
        ("token " ++ t.kind.label ++ " " ++ Text.quoted content)) c) :=
    fun c t => rel_foldl hrefl htrans (fun c _ => hlog c _ _ _) (tokenLines t) c
  unfold logReading
  split
  · have htokens := rel_foldl hrefl htrans htoken (tokensWithin cs reading.consumed) c
    simp only
    split
    · exact htrans htokens (hlog _ _ _ _)
    · exact htokens
  · exact hrefl c

variable [Host]

/-- The state with the reading of a text logged. -/
def logged (cs : List Char) (s : State) : State :=
  { s with console := logReading cs (read cs) s.console }

/-! ## Lines -/

/-- The forms are evaluated one after the other, and their results shown. -/
inductive Shows (coloured : Bool) : List Node → State → State → Prop where
  | nil (s : State) : Shows coloured [] s s
  | cons {node : Node} {nodes : List Node} {v : Value} {s t u w : State}
      (hnode : Ends node s (.ok v t)) (hshow : showResult coloured v t = .ok () u)
      (hnodes : Shows coloured nodes u w) : Shows coloured (node :: nodes) s w

/-- The forms before the node are evaluated and their results shown, and it is the node's turn. -/
def Reaches (coloured : Bool) (nodes : List Node) (s : State) (node : Node) (t : State) : Prop :=
  ∃ front back, nodes = front ++ node :: back ∧ Shows coloured front s t

/-- What becomes of a line that does not quit. -/
inductive Handled (coloured : Bool) (cs : List Char) (s : State) : State → Prop where
  | told {text : String} (hline : Command.ofLine cs = .tell text) :
      Handled coloured cs s (said s (text ++ "\n"))
  | malformed {e : SyntaxError} (hline : Command.ofLine cs = .run)
      (hparse : parse cs = .error (.malformed e)) :
      Handled coloured cs s (reported coloured (logged cs s) e.report)
  | shown {nodes : List Node} {t : State} (hline : Command.ofLine cs = .run)
      (hparse : parse cs = .ok nodes) (hshows : Shows coloured nodes (logged cs s) t) :
      Handled coloured cs s t
  | stopped {nodes : List Node} {node : Node} {t u : State} {e : EvalError}
      (hline : Command.ofLine cs = .run) (hparse : parse cs = .ok nodes)
      (hreaches : Reaches coloured nodes (logged cs s) node t)
      (hnode : Ends node t (.error (.error e) u)) :
      Handled coloured cs s (reported coloured u e.report)

/-- Why forms, evaluated in order with their results shown, end a dialogue. -/
inductive FormsBreak (coloured : Bool) (nodes : List Node) (s : State) : Fault → Prop where
  /-- A form has a call that would have to write an integer of more digits than are written. -/
  | leak {node : Node} {t u : State} (hreaches : Reaches coloured nodes s node t)
      (hnode : Ends node t (.error (.fault .numberTooLong) u)) (hleak : Leaks node u) :
      FormsBreak coloured nodes s .numberTooLong
  /-- A form has a result that cannot be shown. -/
  | result {node : Node} {t u : State} {v : Value} {f : Fault}
      (hreaches : Reaches coloured nodes s node t) (hnode : Ends node t (.ok v u))
      (hv : Value.Unwritable .inspect Host.stack v f) : FormsBreak coloured nodes s f

/-- Why a line ends a dialogue. -/
inductive Breaks (coloured : Bool) (cs : List Char) (s : State) : Fault → Prop where
  /-- An integer of the line has more digits than are read. -/
  | literal {n : Nat} {t : Token} (hparse : parse cs = .error (.fault (.literalTooLong n)))
      (ht : t ∈ (Cursor.ofText cs).tokens.1) (hkind : t.kind = .int)
      (hlong : Decimal.digitLimit < (Decimal.unsigned t.content).length) :
      Breaks coloured cs s (.literalTooLong n)
  | forms {nodes : List Node} {f : Fault} (hparse : parse cs = .ok nodes)
      (h : FormsBreak coloured nodes (logged cs s) f) : Breaks coloured cs s f

/-! ## What a line does to the console -/

theorem follows_logged (cs : List Char) (s : State) :
    s.console.Follows (logged cs s).console :=
  rel_logReading .refl .trans Console.follows_log cs (read cs) s.console

/-- A result is shown, or is not shown for what is in it. -/
theorem showResult_cases (coloured : Bool) (v : Value) (s : State) :
    (∃ t, showResult coloured v s = .ok () t ∧ s.console.Follows t.console) ∨
      ∃ f, showResult coloured v s = .error (.fault f) s ∧
        Value.Unwritable .inspect Host.stack v f := by
  unfold showResult
  split
  · exact .inl ⟨s, rfl, .refl _⟩
  · cases htext : v.inspect with
    | ok text => exact .inl ⟨_, rfl, Console.follows_write _ _⟩
    | error f => exact .inr ⟨f, rfl, Value.textWithin_failsOnly .inspect v Host.stack f htext⟩

/-- Where forms are evaluated and shown, the console is only gone on with. -/
theorem Shows.follows {coloured : Bool} {nodes : List Node} {s t : State}
    (h : Shows coloured nodes s t) : s.console.Follows t.console := by
  induction h with
  | nil s => exact .refl _
  | @cons node nodes v s t u w hnode hshow _ ih =>
    rcases showResult_cases coloured v t with ⟨u', hu, hshown⟩ | ⟨f, hf, _⟩
    · rw [hshow] at hu
      cases hu
      exact (hnode.follows.trans hshown).trans ih
    · rw [hshow] at hf
      cases hf

theorem Handled.reportsOnce {coloured : Bool} {cs : List Char} {s t : State}
    (h : Handled coloured cs s t) : ReportsOnce coloured s.console t.console := by
  cases h with
  | told => exact ⟨_, s.console.follows_write _, .inl rfl⟩
  | malformed => exact ⟨_, follows_logged cs s, .inr ⟨_, rfl⟩⟩
  | shown _ _ hshows => exact ⟨_, (follows_logged cs s).trans hshows.follows, .inl rfl⟩
  | stopped _ _ hreaches hnode =>
    obtain ⟨front, back, _, hfront⟩ := hreaches
    exact ⟨_, ((follows_logged cs s).trans hfront.follows).trans hnode.follows_of_error,
      .inr ⟨_, rfl⟩⟩

/-! ## The forms of a line -/

section Forms

variable {coloured : Bool} {nodes : List Node} {s : State}

theorem Reaches.head (node : Node) (nodes : List Node) (s : State) :
    Reaches coloured (node :: nodes) s node s :=
  ⟨[], nodes, rfl, .nil s⟩

theorem Reaches.cons {node other : Node} {v : Value} {t u w : State}
    (hnode : Ends node s (.ok v t)) (hshow : showResult coloured v t = .ok () u)
    (h : Reaches coloured nodes u other w) : Reaches coloured (node :: nodes) s other w := by
  obtain ⟨front, back, rfl, hfront⟩ := h
  exact ⟨node :: front, back, rfl, .cons hnode hshow hfront⟩

/-- What forms come to that are evaluated in order with their results shown. -/
inductive FormsEnd (coloured : Bool) (nodes : List Node) (s : State) :
    EStateM.Result Halt State Unit → Prop where
  | shown {t : State} (h : Shows coloured nodes s t) : FormsEnd coloured nodes s (.ok () t)
  | stopped {node : Node} {t u : State} {e : EvalError} (hreaches : Reaches coloured nodes s node t)
      (hnode : Ends node t (.error (.error e) u)) : FormsEnd coloured nodes s (.error (.error e) u)
  | broken {f : Fault} {u : State} (h : FormsBreak coloured nodes s f) :
      FormsEnd coloured nodes s (.error (.fault f) u)
  | unfinished (u : State) : FormsEnd coloured nodes s (.error .outOfRounds u)

theorem FormsEnd.cons {node : Node} {v : Value} {t u : State}
    {r : EStateM.Result Halt State Unit} (hnode : Ends node s (.ok v t))
    (hshow : showResult coloured v t = .ok () u) (h : FormsEnd coloured nodes u r) :
    FormsEnd coloured (node :: nodes) s r := by
  cases h with
  | shown h => exact .shown (.cons hnode hshow h)
  | stopped hreaches hend => exact .stopped (hreaches.cons hnode hshow) hend
  | broken h =>
    cases h with
    | leak hreaches hend hleak => exact .broken (.leak (hreaches.cons hnode hshow) hend hleak)
    | result hreaches hend hv => exact .broken (.result (hreaches.cons hnode hshow) hend hv)
  | unfinished u => exact .unfinished u

theorem showForms_ends (rounds : Nat) (coloured : Bool) (nodes : List Node)
    (hforms : Node.AreForms nodes) : ∀ s : State, s.console.inputEnd ≠ .interrupted →
      FormsEnd coloured nodes s (showForms rounds coloured nodes s) := by
  induction nodes with
  | nil => exact fun s _ => .shown (.nil s)
  | cons node nodes ih =>
    intro s hinput
    rw [Node.AreForms] at hforms
    rw [showForms]
    cases heq : evalForm rounds node s with
    | ok v t =>
      have hnode : Ends node s (.ok v t) := ⟨rounds, heq, trivial⟩
      rw [bind_of_ok heq]
      rcases showResult_cases coloured v t with ⟨u, hu, hshown⟩ | ⟨f, hf, hv⟩
      · rw [bind_of_ok hu]
        have hkept := (hnode.follows.trans hshown).inputEnd
        exact .cons hnode hu (ih hforms.2 u (hkept ▸ hinput))
      · rw [bind_of_error hf]
        exact .broken (.result (.head node nodes s) hnode hv)
    | error halt t =>
      rw [bind_of_error heq]
      by_cases hhalt : halt = .outOfRounds
      · rw [hhalt]
        exact .unfinished t
      · have hnode : Ends node s (.error halt t) := ⟨rounds, heq, hhalt⟩
        cases halt with
        | error e => exact .stopped (.head node nodes s) hnode
        | outOfRounds => exact absurd rfl hhalt
        | fault f =>
          rcases hnode.fault_cases hforms.1 with ⟨rfl, hleak⟩ | ⟨_, hinterrupted⟩
          · exact .broken (.leak (.head node nodes s) hnode hleak)
          · exact absurd (hnode.follows_of_error.inputEnd ▸ hinterrupted) hinput

end Forms

/-! ## A line -/

theorem readLogged_apply (cs : List Char) (s : State) :
    readLogged cs s = .ok (parse cs) (logged cs s) := rfl

/-- What a line comes to that is to be run. -/
inductive LineEnd (coloured : Bool) (cs : List Char) (s : State) :
    EStateM.Result Halt State Bool → Prop where
  | handled {b : Bool} {t : State} (h : Handled coloured cs s t) :
      LineEnd coloured cs s (.ok b t)
  | broken {f : Fault} {t : State} (h : Breaks coloured cs s f) :
      LineEnd coloured cs s (.error (.fault f) t)
  | unfinished (t : State) : LineEnd coloured cs s (.error .outOfRounds t)

theorem runLine_ends (rounds : Nat) (coloured : Bool) {cs : List Char} {s : State}
    (hline : Command.ofLine cs = .run) (hinput : s.console.inputEnd ≠ .interrupted) :
    LineEnd coloured cs s (runLine rounds coloured cs s) := by
  unfold runLine readAnd
  rw [bind_of_ok (readLogged_apply cs s)]
  cases hparse : parse cs with
  | ok nodes =>
    have hkept := (follows_logged cs s).inputEnd
    have hforms := showForms_ends rounds coloured nodes (areForms_of_parse hparse) (logged cs s)
      (hkept ▸ hinput)
    simp only [reporting]
    cases heq : showForms rounds coloured nodes (logged cs s) with
    | ok _ t =>
      rw [heq] at hforms
      cases hforms with
      | shown hshows => exact .handled (.shown hline hparse hshows)
    | error halt t =>
      rw [heq] at hforms
      cases hforms with
      | stopped hreaches hnode => exact .handled (.stopped hline hparse hreaches hnode)
      | broken h => exact .broken (.forms hparse h)
      | unfinished => exact .unfinished t
  | error failure =>
    rcases parse_error_cases hparse with ⟨e, rfl⟩ | ⟨⟨n, rfl⟩, t, ht, hkind, hlong⟩
    · exact .handled (.malformed hline hparse)
    · exact .broken (.literal hparse ht hkind hlong)

end MiniLisp.Session
