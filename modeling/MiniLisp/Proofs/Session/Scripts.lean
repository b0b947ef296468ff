import MiniLisp.Proofs.Session.Lines
import MiniLisp.Session.Script

/-!
# Scripts

A script is run form by form, and the first form that halts is the last that is evaluated
(`comes_runForms`). `runScript_ends` says what a script comes to, whatever its bytes: a status with
at most one report, or a fault that nothing reports. Bytes that encode no text are such a fault, and
so are the two ways in which an integer can be too long.
-/

namespace MiniLisp.Session

open MiniLisp.Action

/-! ## Forms in order -/

section Host

variable [Host]

/-- The forms are evaluated one after the other, and each has a value. -/
inductive Runs : List Node → State → State → Prop where
  | nil (s : State) : Runs [] s s
  | cons {node : Node} {nodes : List Node} {v : Value} {s t u : State}
      (hnode : Ends node s (.ok v t)) (hnodes : Runs nodes t u) : Runs (node :: nodes) s u

/-- The forms before the node have values, and it is the node's turn. -/
def ComesTo (nodes : List Node) (s : State) (node : Node) (t : State) : Prop :=
  ∃ front back, nodes = front ++ node :: back ∧ Runs front s t

/-- What forms come to that are evaluated in order. -/
inductive RunEnd (nodes : List Node) (s : State) : EStateM.Result Halt State Unit → Prop where
  | finished {t : State} (h : Runs nodes s t) : RunEnd nodes s (.ok () t)
  | halted {node : Node} {halt : Halt} {t u : State} (hcomes : ComesTo nodes s node t)
      (hnode : Ends node t (.error halt u)) : RunEnd nodes s (.error halt u)

theorem Runs.follows {nodes : List Node} {s t : State} (h : Runs nodes s t) :
    s.console.Follows t.console := by
  induction h with
  | nil s => exact .refl _
  | cons hnode _ ih => exact hnode.follows.trans ih

theorem ComesTo.follows {nodes : List Node} {node : Node} {s t : State}
    (h : ComesTo nodes s node t) : s.console.Follows t.console := by
  obtain ⟨_, _, _, hfront⟩ := h
  exact hfront.follows

theorem ComesTo.mem {nodes : List Node} {node : Node} {s t : State}
    (h : ComesTo nodes s node t) : node ∈ nodes := by
  obtain ⟨front, back, rfl, _⟩ := h
  exact List.mem_append_right front List.mem_cons_self

theorem ComesTo.head (node : Node) (nodes : List Node) (s : State) :
    ComesTo (node :: nodes) s node s :=
  ⟨[], nodes, rfl, .nil s⟩

section Forms

variable {node : Node} {nodes : List Node} {v : Value} {s t : State}

theorem ComesTo.cons {other : Node} {u : State} (hnode : Ends node s (.ok v t))
    (h : ComesTo nodes t other u) : ComesTo (node :: nodes) s other u := by
  obtain ⟨front, back, rfl, hfront⟩ := h
  exact ⟨node :: front, back, rfl, .cons hnode hfront⟩

theorem RunEnd.cons {r : EStateM.Result Halt State Unit} (hnode : Ends node s (.ok v t))
    (h : RunEnd nodes t r) : RunEnd (node :: nodes) s r := by
  cases h with
  | finished h => exact .finished (.cons hnode h)
  | halted hcomes hend => exact .halted (hcomes.cons hnode) hend

end Forms

/-- More rounds do not change how forms end. -/
theorem settles_runForms (nodes : List Node) : Settles fun rounds => runForms rounds nodes := by
  induction nodes with
  | nil => exact settles_const (pure ())
  | cons node nodes ih => exact (settles_evalForm node).bind fun _ => ih

theorem runEnd_nil_iff {s : State} {r : EStateM.Result Halt State Unit} :
    RunEnd [] s r ↔ r = .ok () s := by
  constructor
  · rintro (h | ⟨⟨front, back, hnodes, _⟩, _⟩)
    · cases h
      rfl
    · exact absurd hnodes (by simp)
  · rintro rfl
    exact .finished (.nil s)

theorem runEnd_cons_iff {node : Node} {nodes : List Node} {s : State}
    {r : EStateM.Result Halt State Unit} :
    RunEnd (node :: nodes) s r ↔ Chains (Ends node s) (fun _ t => RunEnd nodes t) r := by
  constructor
  · rintro (h | ⟨⟨front, back, hsplit, hfront⟩, hhalt⟩)
    · cases h with
      | cons hnode hnodes => exact .goes hnode (.finished hnodes)
    · cases hfront with
      | nil =>
        cases hsplit
        exact .halts hhalt
      | cons hnode hfront =>
        cases hsplit
        exact .goes hnode (.halted ⟨_, _, rfl, hfront⟩ hhalt)
  · rintro (hnode | ⟨hnode, hnodes⟩)
    · exact .halted (.head node nodes s) hnode
    · exact hnodes.cons hnode

/-- Forms are evaluated up to the first that halts, and none behind it. -/
theorem comes_runForms {nodes : List Node} {s : State} {r : EStateM.Result Halt State Unit} :
    Comes (fun rounds => runForms rounds nodes) s r ↔ RunEnd nodes s r := by
  induction nodes generalizing s r with
  | nil =>
    rw [runEnd_nil_iff]
    refine comes_const.trans ⟨fun h => h.1.symm, ?_⟩
    rintro rfl
    exact ⟨rfl, trivial⟩
  | cons node nodes ih =>
    rw [runEnd_cons_iff]
    exact (comes_bind (settles_evalForm node) fun _ => settles_runForms nodes).trans
      (chains_congr (fun _ => .rfl) fun _ _ _ => ih)

/-- Forms end whenever each of those that are evaluated does. -/
theorem exists_runEnd (nodes : List Node) :
    ∀ s : State, (∀ node t, ComesTo nodes s node t → ∃ r, Ends node t r) →
      ∃ r, RunEnd nodes s r := by
  induction nodes with
  | nil => exact fun s _ => ⟨_, .finished (.nil s)⟩
  | cons node nodes ih =>
    intro s hends
    obtain ⟨r, hr⟩ := hends node s (.head node nodes s)
    cases r with
    | ok v t =>
      obtain ⟨q, hq⟩ := ih t fun other u hcomes => hends other u (hcomes.cons hr)
      exact ⟨q, hq.cons hr⟩
    | error halt t => exact ⟨_, .halted (.head node nodes s) hr⟩

end Host

/-! ## Scripts -/

/-- The state with a line of the log that says which script is run. -/
def announced (path : String) (nodes : List Node) (s : State) : State :=
  let what := (Path.ofString path).text ++ " (" ++ toString nodes.length ++ " forms)"
  { s with console := s.console.log .info "risp.repl" ("running " ++ what) }

theorem follows_announced (path : String) (nodes : List Node) (s : State) :
    s.console.Follows (announced path nodes s).console :=
  s.console.follows_log _ _ _

/-- With status 0 nothing is reported, and with status 1 one error is, after all else. -/
inductive Told (coloured : Bool) (c : Console) : Nat → Console → Prop where
  | nothing {d : Console} (h : c.Follows d) : Told coloured c 0 d
  | report {b : Console} (h : c.Follows b) (report : String) :
      Told coloured c 1 (b.writeError (paint coloured .error report ++ "\n"))

/-- What the end of a script's forms means for the script. -/
def ofForms (coloured : Bool) :
    EStateM.Result Halt State Unit → EStateM.Result Halt State Nat
  | .ok () t => .ok 0 t
  | .error (.error e) t => .ok 1 (reported coloured t e.report)
  | .error halt t => .error halt t

theorem finished_ofForms (r : EStateM.Result Halt State Unit) :
    Finished (ofForms coloured r) ↔ Finished r := by
  cases r with
  | ok _ t => exact .rfl
  | error halt t => cases halt <;> simp [ofForms, Finished]

section Host

variable [Host]

/-- It is the node's turn in the run of a script. -/
def ScriptComesTo (path : String) (bytes : ByteArray) (s : State) (node : Node) (t : State) :
    Prop :=
  ∃ cs nodes, scriptText bytes = some cs ∧ parse cs = .ok nodes ∧
    ComesTo nodes (announced path nodes (logged cs s)) node t

/-- Why a form has a fault: it has a long integer to write, or a read has been interrupted. -/
def FormFault (node : Node) (s : State) (f : Fault) : Prop :=
  f = .numberTooLong ∧ Leaks node s ∨ f = .interrupted ∧ s.console.inputEnd = .interrupted

/-- What the script with the bytes comes to. -/
inductive ScriptEnd (coloured : Bool) (path : String) (bytes : ByteArray) (s : State) :
    EStateM.Result Halt State Nat → Prop where
  | succeeded {cs : List Char} {nodes : List Node} {t : State} (htext : scriptText bytes = some cs)
      (hparse : parse cs = .ok nodes) (hruns : Runs nodes (announced path nodes (logged cs s)) t) :
      ScriptEnd coloured path bytes s (.ok 0 t)
  | malformed {cs : List Char} {e : SyntaxError} (htext : scriptText bytes = some cs)
      (hparse : parse cs = .error (.malformed e)) :
      ScriptEnd coloured path bytes s (.ok 1 (reported coloured (logged cs s) e.report))
  | stopped {node : Node} {t u : State} {e : EvalError}
      (hcomes : ScriptComesTo path bytes s node t) (hnode : Ends node t (.error (.error e) u)) :
      ScriptEnd coloured path bytes s (.ok 1 (reported coloured u e.report))
  /-- The bytes encode no text. -/
  | undecodable (htext : scriptText bytes = none) :
      ScriptEnd coloured path bytes s (.error (.fault .undecodableText) s)
  /-- An integer of the text has more digits than are read. -/
  | literal {cs : List Char} {n : Nat} {t : Token} (htext : scriptText bytes = some cs)
      (hparse : parse cs = .error (.fault (.literalTooLong n)))
      (ht : t ∈ (Cursor.ofText cs).tokens.1) (hkind : t.kind = .int)
      (hlong : Decimal.digitLimit < (Decimal.unsigned t.content).length) :
      ScriptEnd coloured path bytes s (.error (.fault (.literalTooLong n)) (logged cs s))
  | broken {node : Node} {t u : State} {f : Fault} (hcomes : ScriptComesTo path bytes s node t)
      (hnode : Ends node t (.error (.fault f) u)) (hfault : FormFault node u f) :
      ScriptEnd coloured path bytes s (.error (.fault f) u)

section Script

variable {coloured : Bool} {path : String} {bytes : ByteArray} {s : State}

theorem follows_begun (path : String) (nodes : List Node) (cs : List Char) (s : State) :
    s.console.Follows (announced path nodes (logged cs s)).console :=
  (follows_logged cs s).trans (follows_announced path nodes (logged cs s))

theorem ScriptEnd.told {code : Nat} {t : State} (h : ScriptEnd coloured path bytes s (.ok code t)) :
    Told coloured s.console code t.console := by
  cases h with
  | succeeded _ _ hruns => exact .nothing ((follows_begun ..).trans hruns.follows)
  | malformed => exact .report (follows_logged ..) _
  | stopped hcomes hnode =>
    obtain ⟨cs, nodes, _, _, hcomes⟩ := hcomes
    exact .report ((follows_begun ..).trans (hcomes.follows.trans hnode.follows_of_error)) _

theorem runScript_none (rounds : Nat) (htext : scriptText bytes = none) :
    runScript rounds coloured path (.ok bytes) s = .error (.fault .undecodableText) s := by
  simp only [runScript, htext]
  rfl

section Text

variable {cs : List Char} (htext : scriptText bytes = some cs)
include htext

theorem runScript_some (rounds : Nat) :
    runScript rounds coloured path (.ok bytes) s =
      (status <$> readAnd coloured cs (runScriptForms rounds path)) s := by
  simp only [runScript, htext]

theorem runScript_malformed (rounds : Nat) {e : SyntaxError}
    (hparse : parse cs = .error (.malformed e)) :
    runScript rounds coloured path (.ok bytes) s =
      .ok 1 (reported coloured (logged cs s) e.report) := by
  have hread : readAnd coloured cs (runScriptForms rounds path) s =
      .ok false (reported coloured (logged cs s) e.report) := by
    unfold readAnd
    rw [bind_of_ok (readLogged_apply cs s), hparse]
    rfl
  rw [runScript_some htext, map_eq_pure_bind, bind_of_ok hread]
  rfl

theorem runScript_fault (rounds : Nat) {f : Fault} (hparse : parse cs = .error (.fault f)) :
    runScript rounds coloured path (.ok bytes) s = .error (.fault f) (logged cs s) := by
  have hread : readAnd coloured cs (runScriptForms rounds path) s =
      .error (.fault f) (logged cs s) := by
    unfold readAnd
    rw [bind_of_ok (readLogged_apply cs s), hparse]
    rfl
  rw [runScript_some htext, map_eq_pure_bind, bind_of_error hread]

theorem runScript_forms (rounds : Nat) {nodes : List Node} (hparse : parse cs = .ok nodes) :
    runScript rounds coloured path (.ok bytes) s =
      ofForms coloured (runForms rounds nodes (announced path nodes (logged cs s))) := by
  have hread : readAnd coloured cs (runScriptForms rounds path) s =
      reporting coloured (runScriptForms rounds path nodes) (logged cs s) := by
    unfold readAnd
    rw [bind_of_ok (readLogged_apply cs s), hparse]
  have hrun : runScriptForms rounds path nodes (logged cs s) =
      runForms rounds nodes (announced path nodes (logged cs s)) := rfl
  rw [runScript_some htext, map_eq_pure_bind]
  unfold reporting at hread
  rw [hrun] at hread
  cases heq : runForms rounds nodes (announced path nodes (logged cs s)) with
  | ok _ t =>
    rw [heq] at hread
    exact bind_of_ok hread _
  | error halt t =>
    rw [heq] at hread
    cases halt with
    | error e => exact bind_of_ok hread _
    | outOfRounds => exact bind_of_error hread _
    | fault f => exact bind_of_error hread _

/-- The forms of the text decide what becomes of the script. -/
theorem scriptEnd_of_runEnd {nodes : List Node} (hparse : parse cs = .ok nodes)
    {r : EStateM.Result Halt State Unit} (hfinished : Finished r)
    (h : RunEnd nodes (announced path nodes (logged cs s)) r) :
    ScriptEnd coloured path bytes s (ofForms coloured r) := by
  cases h with
  | finished hruns => exact .succeeded htext hparse hruns
  | @halted node halt t u hcomes hnode =>
    have hturn : ScriptComesTo path bytes s node t := ⟨cs, nodes, htext, hparse, hcomes⟩
    cases halt with
    | error e => exact .stopped hturn hnode
    | outOfRounds => exact absurd rfl hfinished
    | fault f =>
      have hforms := Node.areForms_iff.mp (areForms_of_parse hparse)
      exact .broken hturn hnode (hnode.fault_cases (hforms node hcomes.mem))

end Text

theorem scriptEnd_of_finished {rounds : Nat} (coloured : Bool) (path : String) (bytes : ByteArray)
    (s : State) (hfinished : Finished (runScript rounds coloured path (.ok bytes) s)) :
    ScriptEnd coloured path bytes s (runScript rounds coloured path (.ok bytes) s) := by
  cases htext : scriptText bytes with
  | none =>
    rw [runScript_none rounds htext]
    exact .undecodable htext
  | some cs =>
    cases hparse : parse cs with
    | ok nodes =>
      rw [runScript_forms htext rounds hparse] at hfinished ⊢
      have hforms := (finished_ofForms _).mp hfinished
      exact scriptEnd_of_runEnd htext hparse hforms
        (comes_runForms.mp ⟨rounds, rfl, hforms⟩)
    | error failure =>
      rcases parse_error_cases hparse with ⟨e, rfl⟩ | ⟨⟨n, rfl⟩, t, ht, hkind, hlong⟩
      · rw [runScript_malformed htext rounds hparse]
        exact .malformed htext hparse
      · rw [runScript_fault htext rounds hparse]
        exact .literal htext hparse ht hkind hlong

/-- A script ends as its forms do. -/
theorem exists_rounds_ofForms {cs : List Char} {nodes : List Node}
    (htext : scriptText bytes = some cs) (hparse : parse cs = .ok nodes)
    {r : EStateM.Result Halt State Unit} (h : RunEnd nodes (announced path nodes (logged cs s)) r) :
    ∃ rounds, runScript rounds coloured path (.ok bytes) s = ofForms coloured r ∧
      Finished (ofForms coloured r) := by
  obtain ⟨rounds, rfl, hfinished⟩ := comes_runForms.mpr h
  exact ⟨rounds, runScript_forms htext rounds hparse, (finished_ofForms _).mpr hfinished⟩

theorem ScriptEnd.exists_rounds {r : EStateM.Result Halt State Nat}
    (h : ScriptEnd coloured path bytes s r) :
    ∃ rounds, runScript rounds coloured path (.ok bytes) s = r ∧ Finished r := by
  cases h with
  | succeeded htext hparse hruns => exact exists_rounds_ofForms htext hparse (.finished hruns)
  | malformed htext hparse => exact ⟨0, runScript_malformed htext 0 hparse, trivial⟩
  | stopped hcomes hnode =>
    obtain ⟨cs, nodes, htext, hparse, hcomes⟩ := hcomes
    exact exists_rounds_ofForms htext hparse (.halted hcomes hnode)
  | undecodable htext => exact ⟨0, runScript_none 0 htext, by simp [Finished]⟩
  | literal htext hparse => exact ⟨0, runScript_fault htext 0 hparse, by simp [Finished]⟩
  | broken hcomes hnode =>
    obtain ⟨cs, nodes, htext, hparse, hcomes⟩ := hcomes
    exact exists_rounds_ofForms htext hparse (.halted hcomes hnode)

/-- A script ends unless one of the forms that are evaluated does not. -/
theorem exists_scriptEnd
    (hends : ∀ node t, ScriptComesTo path bytes s node t → ∃ r, Ends node t r) :
    ∃ r, ScriptEnd coloured path bytes s r := by
  cases htext : scriptText bytes with
  | none => exact ⟨_, .undecodable htext⟩
  | some cs =>
    cases hparse : parse cs with
    | ok nodes =>
      obtain ⟨r, hr⟩ := exists_runEnd nodes (announced path nodes (logged cs s))
        fun node t hcomes => hends node t ⟨cs, nodes, htext, hparse, hcomes⟩
      obtain ⟨_, _, hfinished⟩ := comes_runForms.mpr hr
      exact ⟨_, scriptEnd_of_runEnd htext hparse hfinished hr⟩
    | error failure =>
      rcases parse_error_cases hparse with ⟨e, rfl⟩ | ⟨⟨n, rfl⟩, t, ht, hkind, hlong⟩
      · exact ⟨_, .malformed htext hparse⟩
      · exact ⟨_, .literal htext hparse ht hkind hlong⟩

/-- A script ends in one way at most. -/
theorem ScriptEnd.unique {r q : EStateM.Result Halt State Nat}
    (hr : ScriptEnd coloured path bytes s r) (hq : ScriptEnd coloured path bytes s q) : q = r := by
  obtain ⟨n, rfl, hn⟩ := hr.exists_rounds
  obtain ⟨m, rfl, hm⟩ := hq.exists_rounds
  cases htext : scriptText bytes with
  | none => rw [runScript_none n htext, runScript_none m htext]
  | some cs =>
    cases hparse : parse cs with
    | ok nodes =>
      rw [runScript_forms htext n hparse, finished_ofForms] at hn
      rw [runScript_forms htext m hparse, finished_ofForms] at hm
      have hsame : runForms m nodes (announced path nodes (logged cs s)) =
          runForms n nodes (announced path nodes (logged cs s)) :=
        Comes.unique (settles_runForms nodes) ⟨n, rfl, hn⟩ ⟨m, rfl, hm⟩
      rw [runScript_forms htext n hparse, runScript_forms htext m hparse, hsame]
    | error failure =>
      cases failure with
      | malformed e => rw [runScript_malformed htext n hparse, runScript_malformed htext m hparse]
      | fault f => rw [runScript_fault htext n hparse, runScript_fault htext m hparse]

end Script

/-- How a script ends, whatever its bytes and the input are: its forms are evaluated up to the first
that halts, if it can be read at all, and what it comes to is a status with at most one report, or
one of four faults. It ends whenever the forms do that are evaluated, and in one way. -/
theorem runScript_ends (coloured : Bool) (path : String) (bytes : ByteArray) (s : State) :
    (∀ r, (∃ rounds, runScript rounds coloured path (.ok bytes) s = r ∧ Finished r) ↔
        ScriptEnd coloured path bytes s r) ∧
      (∀ code t, ScriptEnd coloured path bytes s (.ok code t) →
        Told coloured s.console code t.console) ∧
      ((∀ node t, ScriptComesTo path bytes s node t → ∃ r, Ends node t r) →
        ∃! r, ScriptEnd coloured path bytes s r) := by
  refine ⟨fun r => ⟨?_, ScriptEnd.exists_rounds⟩, fun _ _ h => h.told, fun hends => ?_⟩
  · rintro ⟨rounds, rfl, hfinished⟩
    exact scriptEnd_of_finished coloured path bytes s hfinished
  · obtain ⟨r, hr⟩ := exists_scriptEnd hends
    exact ⟨r, hr, fun q hq => hr.unique hq⟩

end Host

/-- A script of one byte that encodes nothing has no status: it ends with a fault, and nothing is
reported. -/
theorem runScript_undecodable : ∃ bytes, bytes = ByteArray.mk #[0xff] ∧
    ∀ rounds coloured path s,
      runScript rounds coloured path (.ok bytes) s = .error (.fault .undecodableText) s := by
  have htext : scriptText (ByteArray.mk #[0xff]) = none := by decide +kernel
  exact ⟨_, rfl, fun rounds coloured path s => runScript_none rounds htext⟩

end MiniLisp.Session
