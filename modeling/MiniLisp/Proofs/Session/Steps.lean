import MiniLisp.Proofs.Evaluation.Elsewhere
import MiniLisp.Proofs.Session.Scripts

/-!
# The steps of a run

A run of forms in order is told step by step: which form is evaluated, which value it has and what
it prints. What is done with the values between the steps is left open, so that a script, which
drops them, and a dialogue, which shows them, can be said to make the same steps.
`Performs.elsewhere` makes the steps of one run again in another.
-/

namespace MiniLisp.Session

open MiniLisp.Action

/-- A form that is evaluated, with its value and the text that it prints. -/
structure Step where
  form : Node
  value : Value
  printed : String

/-- Nothing is done with the value. -/
def Dropped (_ : Value) (s t : State) : Prop := t = s

/-- As much is left to be read from the one console as from the other. -/
structure SameInput (c d : Console) : Prop where
  input : d.input = c.input
  inputEnd : d.inputEnd = c.inputEnd

theorem SameInput.refl (c : Console) : SameInput c c := ⟨rfl, rfl⟩

theorem SameInput.trans {c d e : Console} (h : SameInput c d) (h' : SameInput d e) :
    SameInput c e :=
  ⟨h'.input.trans h.input, h'.inputEnd.trans h.inputEnd⟩

theorem exists_dropped (v : Value) (s : State) :
    ∃ t, Dropped v s t ∧ t.env = s.env ∧ SameInput s.console t.console :=
  ⟨s, rfl, rfl, .refl _⟩

theorem Dropped.out {v : Value} {s t : State} (h : Dropped v s t) :
    t.console.out = s.console.out ++ "" := by
  rw [h, String.append_empty]

theorem sameInput_log (c : Console) (level : LogLevel) (part message : String) :
    SameInput c (c.log level part message) :=
  ⟨(log_input c level part message).1, (c.follows_log level part message).inputEnd⟩

variable [Host]

/-- The steps are made one after the other; `next` says what is done with a value in between. -/
inductive Performs (next : Value → State → State → Prop) : List Step → State → State → Prop where
  | nil (s : State) : Performs next [] s s
  | cons {step : Step} {steps : List Step} {s t u w : State}
      (hform : Ends step.form s (.ok step.value t))
      (hout : t.console.out = s.console.out ++ step.printed) (hnext : next step.value t u)
      (hsteps : Performs next steps u w) : Performs next (step :: steps) s w

/-- The value is shown. -/
def Shown (coloured : Bool) (v : Value) (s t : State) : Prop := showResult coloured v s = .ok () t

/-- The text with which a value is shown. -/
def resultText (coloured : Bool) : Value → String
  | .null => ""
  | v =>
    match v.inspect with
    | .ok text => paint coloured .result text ++ "\n"
    | .error _ => ""

theorem sameInput_logged (cs : List Char) (s : State) :
    SameInput s.console (logged cs s).console :=
  rel_logReading .refl .trans sameInput_log cs (read cs) s.console

theorem out_logged (cs : List Char) (s : State) : (logged cs s).console.out = s.console.out :=
  rel_logReading (R := fun c d => d.out = c.out) (fun _ => rfl) (fun h h' => h'.trans h)
    (fun c level part message => (log_input c level part message).2) cs (read cs) s.console

section Steps

variable {next : Value → State → State → Prop} {steps : List Step} {s t : State}

theorem Performs.split {front back : List Step} (h : Performs next (front ++ back) s t) :
    ∃ u, Performs next front s u ∧ Performs next back u t := by
  induction front generalizing s with
  | nil => exact ⟨s, .nil s, h⟩
  | cons step front ih =>
    cases h with
    | cons hform hout hnext hsteps =>
      obtain ⟨u, hfront, hback⟩ := ih hsteps
      exact ⟨u, .cons hform hout hnext hfront, hback⟩

theorem Performs.runs (h : Performs Dropped steps s t) : Runs (steps.map Step.form) s t := by
  induction h with
  | nil s => exact .nil s
  | cons hform _ hnext _ ih =>
    cases hnext
    exact .cons hform ih

theorem Performs.shows {coloured : Bool} (h : Performs (Shown coloured) steps s t) :
    Shows coloured (steps.map Step.form) s t := by
  induction h with
  | nil s => exact .nil s
  | cons hform _ hnext _ ih => exact .cons hform hnext ih

/-- What is written between the first step and the last, if `text` is what is written on a value
in between. -/
theorem Performs.out {text : Value → String} (h : Performs next steps s t)
    (hnext : ∀ {v s t}, next v s t → t.console.out = s.console.out ++ text v) :
    t.console.out =
      s.console.out ++ String.join (steps.map fun step => step.printed ++ text step.value) := by
  induction h with
  | nil s => rw [List.map_nil, String.join_nil, String.append_empty]
  | cons _ hout hvalue _ ih =>
    rw [ih, hnext hvalue, hout, List.map_cons, String.join_cons]
    simp only [String.append_assoc]

/-- A form that reads nothing has its value again in every state with its environment. -/
theorem ends_again {node : Node} {v : Value} {text : String} {r : State}
    (h : Ends node s (.ok v t)) (hout : t.console.out = s.console.out ++ text)
    (hinput : t.console.input = s.console.input) (henv : r.env = s.env) :
    ∃ t', Ends node r (.ok v t') ∧ t'.console.out = r.console.out ++ text ∧ t'.env = t.env ∧
      SameInput r.console t'.console := by
  obtain ⟨t', ht', hstep⟩ := h.elsewhere (tracks_eq _ _) henv.symm hinput
  obtain ⟨text', hs, hs'⟩ := hstep.out
  obtain rfl : text = text' := String.append_right_inj _ |>.mp (hout.symm.trans hs)
  exact ⟨t', ht', hs', hstep.env.symm, hstep.input, ht'.follows.inputEnd⟩

/-- Steps that read nothing are made again in every state with the same environment, whatever is
done with the values in between, if it leaves the environment and the input alone. -/
theorem Performs.elsewhere (h : Performs Dropped steps s t)
    (hinput : t.console.input = s.console.input)
    (hnext : ∀ step ∈ steps, ∀ u, ∃ w, next step.value u w ∧ w.env = u.env ∧
      SameInput u.console w.console) {r : State} (henv : r.env = s.env) :
    ∃ t', Performs next steps r t' ∧ t'.env = t.env ∧ SameInput r.console t'.console := by
  induction h generalizing r with
  | nil s => exact ⟨r, .nil r, henv, .refl _⟩
  | @cons step steps s t _ w hform hout hdropped hsteps ih =>
    cases hdropped
    have hsuffix := hsteps.runs.follows.input
    -- no step has read anything, since all together have not
    have hfirst : t.console.input = s.console.input :=
      hform.follows.input.eq_of_length_le (hinput ▸ hsuffix.length_le)
    obtain ⟨t', hform', hout', henv', hsame⟩ := ends_again hform hout hfirst henv
    obtain ⟨u', hnext', hkept, hsame'⟩ := hnext step List.mem_cons_self t'
    obtain ⟨w', hsteps', hend, hsame''⟩ := ih (hinput.trans hfirst.symm)
      (fun step' h => hnext step' (List.mem_cons_of_mem step h)) (hkept.trans henv')
    exact ⟨w', .cons hform' hout' hnext' hsteps', hend, (hsame.trans hsame').trans hsame''⟩

end Steps

/-! ### Values that are shown -/

/-- A value that has a text is shown. -/
theorem exists_shown (coloured : Bool) {v : Value} (hv : ∃ text, v.inspect = .ok text) (s : State) :
    ∃ t, Shown coloured v s t ∧ t.env = s.env ∧ SameInput s.console t.console := by
  obtain ⟨text, htext⟩ := hv
  unfold Shown showResult
  split
  · exact ⟨s, rfl, rfl, .refl _⟩
  · rw [htext]
    exact ⟨_, rfl, rfl, rfl, rfl⟩

theorem resultText_of_inspect (coloured : Bool) {v : Value} {text : String} (hnull : v ≠ .null)
    (hv : v.inspect = .ok text) : resultText coloured v = paint coloured .result text ++ "\n" := by
  unfold resultText
  split
  · exact absurd rfl hnull
  · rw [hv]

theorem Shown.out {coloured : Bool} {v : Value} {s t : State} (h : Shown coloured v s t) :
    t.console.out = s.console.out ++ resultText coloured v := by
  unfold Shown showResult at h
  split at h
  · cases h
    exact String.append_empty.symm
  · rename_i hnull
    cases htext : v.inspect with
    | ok text =>
      rw [htext] at h
      cases h
      rw [resultText_of_inspect coloured hnull htext]
      rfl
    | error f =>
      rw [htext] at h
      cases h

/-! ### With rounds enough -/

theorem Runs.enough_rounds {nodes : List Node} {s t : State} (h : Runs nodes s t) :
    ∃ enough, ∀ rounds, enough ≤ rounds → runForms rounds nodes s = .ok () t :=
  (comes_runForms.mpr (.finished h)).enough_rounds (settles_runForms nodes)

theorem Shows.enough_rounds {coloured : Bool} {nodes : List Node} {s t : State}
    (h : Shows coloured nodes s t) :
    ∃ enough, ∀ rounds, enough ≤ rounds → showForms rounds coloured nodes s = .ok () t := by
  induction h with
  | nil s => exact ⟨0, fun _ _ => rfl⟩
  | cons hnode hshow _ ih =>
    obtain ⟨n, hn⟩ := hnode.enough_rounds
    obtain ⟨m, hm⟩ := ih
    refine ⟨max n m, fun rounds hle => ?_⟩
    rw [showForms, bind_of_ok (hn rounds (by omega)), bind_of_ok hshow]
    exact hm rounds (by omega)

end MiniLisp.Session
