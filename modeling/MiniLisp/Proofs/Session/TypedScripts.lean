import MiniLisp.Proofs.Session.Dialogue
import MiniLisp.Proofs.Session.Steps
import MiniLisp.Proofs.Source.Concatenation

/-!
# Scripts that are typed

Lines that can each be read alone are typed in a dialogue, or stand below each other in a script.
Where their forms have values, read nothing and have results that can be shown, both make the same
steps and leave the same environment (`typed_as_script`).

The text of the script is read as its lines are, one behind the other (`parse_joined`). The steps
are then those of one run in order, made again where the script and where the lines of the
dialogue begin (`exists_types`).
-/

namespace MiniLisp.Session

open MiniLisp.Action

/-! ## Lines in a script -/

/-- The text in which the lines stand below each other. -/
def joined (lines : List (List Char)) : List Char := ['\n'].intercalate lines

/-- What is typed when the lines are. -/
def typed (lines : List (List Char)) : List Char := lines.flatMap (· ++ ['\n'])

theorem typed_cons (line : List Char) (lines : List (List Char)) :
    typed (line :: lines) = line ++ '\n' :: typed lines := by
  simp [typed]

theorem length_le_typed (lines : List (List Char)) : lines.length ≤ (typed lines).length := by
  induction lines with
  | nil => exact Nat.le_refl _
  | cons line lines ih =>
    rw [typed_cons, List.length_append, List.length_cons, List.length_cons]
    omega

theorem isGap_newline : IsGap ['\n'] := by decide

/-! ## Reading a line -/

section Asks

variable {settings : Settings} {s t : State}

theorem asks_line (settings : Settings) {line rest : List Char} (hline : '\n' ∉ line)
    (h : s.console.input = line ++ '\n' :: rest) :
    ∃ t, Asks settings s (line ++ ['\n']) t ∧ t.console.input = rest := by
  have hne : s.console.input ≠ [] := by simp [h]
  obtain ⟨cs, t, hasks⟩ := exists_asks settings hne
  have hread := readLine_of_ne_nil (c := s.console.write settings.prompt) hne
  rw [hasks.2, show (s.console.write settings.prompt).input = line ++ '\n' :: rest from h,
    Text.takeLine_append_newline hline] at hread
  obtain ⟨hcs, hconsole⟩ := Prod.mk.inj hread
  cases hcs
  exact ⟨t, hasks, by rw [hconsole]⟩

theorem Asks.out {cs : List Char} (h : Asks settings s cs t) :
    t.console.out = s.console.out ++ settings.prompt := by
  have hread := h.2
  unfold Console.readLine at hread
  split at hread
  · split at hread <;> cases hread
  · exact (congrArg (·.2.out) hread).symm

end Asks

section Host

variable [Host]

/-! ## Lines to be run -/

/-- A line that is to be run, and the steps of its forms. The stack holds the line also with the
newline behind it. -/
structure LineOf (line : List Char) (row : List Step) : Prop where
  noReturn : '\r' ∉ line
  noNewline : '\n' ∉ line
  command : String.ofList (Text.trimBlanks line) ∉ ["q", "quit", "bugs", "copyright"]
  forms : parse line = .ok (row.map Step.form)
  fits : Fits (line ++ ['\n'])

theorem LineOf.ofLine {line : List Char} {row : List Step} (h : LineOf line row) :
    Command.ofLine (line ++ ['\n']) = .run := by
  have hword := h.command
  simp only [List.mem_cons, List.not_mem_nil, or_false, not_or] at hword
  obtain ⟨hq, hquit, hbugs, hcopyright⟩ := hword
  unfold Command.ofLine
  rw [Text.trimBlanks_append_blank line (by decide)]
  split <;> first | contradiction | rfl

theorem parse_nil : parse [] = .ok [] := by cbv

/-- The newline that is typed behind a line is not seen. -/
theorem LineOf.parse_typed {line : List Char} {row : List Step} (h : LineOf line row) :
    parse (line ++ ['\n']) = .ok (row.map Step.form) := by
  have hwhole : Fits (line ++ ['\n'] ++ []) := by simpa using h.fits
  have hparse := parse_append_parsed h.forms isGap_newline parse_nil hwhole
  rwa [List.append_nil, List.append_nil] at hparse

/-- With levels enough, lines below each other are read as the lines one after the other. -/
theorem readLevels_joined {lines : List (List Char)} {rows : List (List Step)}
    (h : List.Forall₂ LineOf lines rows) : ∃ enough, ∀ levels, enough ≤ levels →
      readLevels levels (joined lines) = .ok (rows.flatten.map Step.form) := by
  induction h with
  | nil => exact ⟨_, fun _ => readLevels_of_parse parse_nil⟩
  | @cons line row lines rows hline hlines ih =>
    cases hlines with
    | nil =>
      rw [joined, List.intercalate_singleton, List.flatten_singleton]
      exact ⟨_, fun _ => readLevels_of_parse hline.forms⟩
    | cons _ _ =>
      obtain ⟨enough, hrest⟩ := ih
      refine ⟨max (Host.levels line) enough, fun levels hle => ?_⟩
      have hfirst : readLevels levels line = .ok (row.map Step.form) :=
        readLevels_of_parse hline.forms (by omega)
      rw [joined] at hrest
      rw [joined, List.intercalate_cons_cons, List.flatten_cons, List.map_append,
        readLevels_append hfirst isGap_newline, hrest levels (by omega)]
      rfl

/-- Lines below each other are read as the lines one after the other, if the stack holds them. -/
theorem parse_joined {lines : List (List Char)} {rows : List (List Step)}
    (h : List.Forall₂ LineOf lines rows) (hfits : Fits (joined lines)) :
    parse (joined lines) = .ok (rows.flatten.map Step.form) := by
  obtain ⟨enough, hread⟩ := readLevels_joined h
  rw [hfits.parse_eq (Nat.le_max_right enough _), hread _ (Nat.le_max_left _ _)]
  rfl

theorem noReturn_joined {lines : List (List Char)} {rows : List (List Step)}
    (h : List.Forall₂ LineOf lines rows) : '\r' ∉ joined lines := by
  induction h with
  | nil => simp [joined]
  | @cons line row lines rows hline hlines ih =>
    cases hlines with
    | nil =>
      rw [joined, List.intercalate_singleton]
      exact hline.noReturn
    | cons _ _ =>
      rw [joined, List.intercalate_cons_cons]
      simp only [List.mem_append, not_or]
      exact ⟨⟨hline.noReturn, by decide⟩, ih⟩

/-- The script in which the lines stand below each other. -/
def scriptOf (lines : List (List Char)) : ByteArray := (String.ofList (joined lines)).toUTF8

theorem scriptText_scriptOf {lines : List (List Char)} {rows : List (List Step)}
    (h : List.Forall₂ LineOf lines rows) : scriptText (scriptOf lines) = some (joined lines) := by
  have hdecode : String.fromUTF8? (scriptOf lines) = some (String.ofList (joined lines)) :=
    dif_pos (String.ofList (joined lines)).isValidUTF8
  rw [scriptText, hdecode, Option.map_some, String.toList_ofList,
    Text.unifyNewlines_eq_self (noReturn_joined h)]

/-! ## Lines in a dialogue -/

/-- The lines are typed one after the other: each is asked for and read, and its forms are
evaluated with their results shown. -/
inductive Types (settings : Settings) (coloured : Bool) :
    List (List Char) → List (List Step) → State → State → Prop where
  | nil (s : State) : Types settings coloured [] [] s s
  | cons {line : List Char} {lines : List (List Char)} {row : List Step} {rows : List (List Step)}
      {s t u w : State} (hasks : Asks settings s (line ++ ['\n']) t)
      (hline : Command.ofLine (line ++ ['\n']) = .run)
      (hparse : parse (line ++ ['\n']) = .ok (row.map Step.form))
      (hrow : Performs (Shown coloured) row (logged (line ++ ['\n']) t) u)
      (hlines : Types settings coloured lines rows u w) :
      Types settings coloured (line :: lines) (row :: rows) s w

section Typing

variable {settings : Settings} {coloured : Bool} {lines : List (List Char)}
  {rows : List (List Step)} {s t : State}

/-- Lines whose steps are those of a run that reads nothing can be typed where the run began. -/
theorem exists_types (settings : Settings) (coloured : Bool)
    (hlines : List.Forall₂ LineOf lines rows) (hrun : Performs Dropped rows.flatten s t)
    (hreads : t.console.input = s.console.input)
    (hshown : ∀ step ∈ rows.flatten, ∃ text, step.value.inspect = .ok text) {r : State}
    (henv : r.env = s.env) (hinput : r.console.input = typed lines) :
    ∃ u, Types settings coloured lines rows r u ∧ u.env = t.env ∧ u.console.input = [] ∧
      u.console.inputEnd = r.console.inputEnd := by
  -- on the lines: the first is asked for, its steps are made again, and the rest begins there
  induction hlines generalizing s r with
  | nil =>
    cases hrun
    exact ⟨r, .nil r, henv, hinput, rfl⟩
  | @cons line row lines rows hline hlines ih =>
    obtain ⟨u, hrow, hrest⟩ := hrun.split
    have hfirst : u.console.input = s.console.input :=
      hrow.runs.follows.input.eq_of_length_le (hreads ▸ hrest.runs.follows.input.length_le)
    rw [List.flatten_cons] at hshown
    rw [typed_cons] at hinput
    obtain ⟨a, hasks, hleft⟩ := asks_line settings hline.noNewline hinput
    have henv' : (logged (line ++ ['\n']) a).env = s.env := hasks.1.trans henv
    have hlogged := sameInput_logged (line ++ ['\n']) a
    obtain ⟨u', hrow', hkept, hsame⟩ := hrow.elsewhere hfirst
      (fun step h => exists_shown coloured (hshown step (List.mem_append_left _ h))) henv'
    obtain ⟨w, htypes, hend, hnil, hlast⟩ := ih hrest (hreads.trans hfirst.symm)
      (fun step h => hshown step (List.mem_append_right _ h)) hkept
      ((hlogged.trans hsame).input.trans hleft)
    refine ⟨w, .cons hasks hline.ofLine hline.parse_typed hrow' htypes, hend, hnil, ?_⟩
    exact (hlast.trans (hlogged.trans hsame).inputEnd).trans hasks.inputEnd

/-- What a dialogue writes on the steps of its lines: the prompt for each line, and what each step
prints with its result. -/
def transcript (settings : Settings) (coloured : Bool) (rows : List (List Step)) : String :=
  String.join (rows.map fun row => settings.prompt ++
    String.join (row.map fun step => step.printed ++ resultText coloured step.value))

theorem Types.out (h : Types settings coloured lines rows s t) :
    t.console.out = s.console.out ++ transcript settings coloured rows := by
  induction h with
  | nil s => rw [transcript, List.map_nil, String.join_nil, String.append_empty]
  | cons hasks _ _ hrow _ ih =>
    rw [ih, hrow.out Shown.out, out_logged, hasks.out, transcript, transcript, List.map_cons,
      String.join_cons]
    simp only [String.append_assoc]

/-- A line whose forms are shown is run to its end, with rounds enough. -/
theorem Shows.runLine_enough_rounds {cs : List Char} {nodes : List Node}
    (hparse : parse cs = .ok nodes) (h : Shows coloured nodes (logged cs s) t) :
    ∃ enough, ∀ rounds, enough ≤ rounds → runLine rounds coloured cs s = .ok true t := by
  obtain ⟨enough, hforms⟩ := h.enough_rounds
  refine ⟨enough, fun rounds hle => ?_⟩
  unfold runLine readAnd
  rw [bind_of_ok (readLogged_apply cs s), hparse]
  simp only [reporting, hforms rounds hle]

/-- Lines that are typed are turns of a dialogue, and the end of the input is the last turn. -/
theorem Types.enough_rounds (h : Types settings coloured lines rows s t)
    (hend : t.console.inputEnd = .closed) (hnil : t.console.input = []) :
    ∃ enough, ∀ rounds, enough ≤ rounds → ∀ turns, lines.length < turns →
      takeTurns rounds settings coloured turns s = .ok () (said (said t settings.prompt) "\n") := by
  induction h with
  | nil s =>
    refine ⟨0, fun rounds _ turns hturns => ?_⟩
    obtain ⟨more, rfl⟩ : ∃ more, turns = more + 1 := ⟨turns - 1, by omega⟩
    rw [takeTurns, bind_of_ok (turn_of_nil rounds settings coloured hend hnil)]
    rfl
  | @cons line lines row rows s t u w hasks hline hparse hrow _ ih =>
    obtain ⟨n, hn⟩ := hrow.shows.runLine_enough_rounds hparse
    obtain ⟨m, hm⟩ := ih hend hnil
    refine ⟨max n m, fun rounds hle turns hturns => ?_⟩
    obtain ⟨more, rfl⟩ : ∃ more, turns = more + 1 := ⟨turns - 1, by omega⟩
    have hturn : turn rounds settings coloured s = .ok true u := by
      rw [turn_of_asks rounds coloured hasks, hline]
      exact bind_of_ok (hn rounds (by omega)) _
    rw [takeTurns, bind_of_ok hturn]
    exact hm rounds (by omega) more (by simpa using hturns)

end Typing

/-- Typing a script and running it do the same. Lines are given that are read alone and are to be
run, for which and for the script the stack is not too small, and the steps of their forms in a run
from the environment that is there at first: each form has a value, nothing is read, and each value
has a text. Then, with rounds enough, a dialogue on
these lines and a script of them come to an end in which they have made these steps: the same forms
with the same values, which print the same texts, in the same order. They leave the same
environment, and the status of the script is 0. -/
theorem typed_as_script {lines : List (List Char)} {rows : List (List Step)} {c : Console}
    {t : State} (hlines : List.Forall₂ LineOf lines rows) (hfits : Fits (joined lines))
    (hrun : Performs Dropped rows.flatten ⟨Environment.initial, c⟩ t)
    (hreads : t.console.input = c.input)
    (hshown : ∀ step ∈ rows.flatten, ∃ text, step.value.inspect = .ok text)
    (settings : Settings) (isTerminal coloured : Bool) (path : String) {d e : Console}
    (hinput : d.input = typed lines) (hend : d.inputEnd = .closed) :
    ∃ last final,
      (Types settings (settings.colours isTerminal) lines rows
          (said ⟨Environment.initial, d⟩ banner) last ∧ last.env = t.env ∧
        last.console.out =
          d.out ++ banner ++ transcript settings (settings.colours isTerminal) rows) ∧
      (Performs Dropped rows.flatten (announced path (rows.flatten.map Step.form)
          (logged (joined lines) ⟨Environment.initial, e⟩)) final ∧ final.env = t.env ∧
        final.console.out = e.out ++ String.join (rows.flatten.map Step.printed)) ∧
      ∃ enough, ∀ rounds, enough ≤ rounds →
        dialogue rounds settings isTerminal ⟨Environment.initial, d⟩ =
          .ok () (said (said last settings.prompt) "\n") ∧
        runScript rounds coloured path (.ok (scriptOf lines)) ⟨Environment.initial, e⟩ =
          .ok 0 final := by
  obtain ⟨last, htypes, hlast, hnil, hclosed⟩ := exists_types settings
    (settings.colours isTerminal) (r := said ⟨Environment.initial, d⟩ banner)
    hlines hrun hreads hshown rfl hinput
  obtain ⟨final, hscript, hfinal, _⟩ := hrun.elsewhere hreads
    (fun step _ => exists_dropped step.value)
    (r := announced path (rows.flatten.map Step.form)
      (logged (joined lines) ⟨Environment.initial, e⟩)) rfl
  refine ⟨last, final, ⟨htypes, hlast, htypes.out⟩, ⟨hscript, hfinal, ?_⟩, ?_⟩
  · have hout := hscript.out Dropped.out
    simp only [String.append_empty] at hout
    rw [hout, announced, (log_input _ _ _ _).2, out_logged]
  · obtain ⟨n, hn⟩ := htypes.enough_rounds (hclosed.trans hend) hnil
    obtain ⟨m, hm⟩ := hscript.runs.enough_rounds
    have hlength : lines.length ≤ d.input.length := hinput ▸ length_le_typed lines
    refine ⟨max n m, fun rounds hle => ⟨?_, ?_⟩⟩
    · exact hn rounds (by omega) _ (Nat.lt_succ_of_le hlength)
    · rw [runScript_forms (scriptText_scriptOf hlines) rounds (parse_joined hlines hfits),
        hm rounds (by omega)]
      rfl

end Host

/-! ### A script of two lines -/

/-- Binds a name, and prints and shows its value. -/
def greeting : List (List Char) := ["(set x \"hi\")".toList, " (println x) x".toList]

def greetingSteps : List (List Step) :=
  [[⟨.expr [.name "set", .name "x", .str "hi"], .str "hi", ""⟩],
    [⟨.expr [.name "println", .name "x"], .null, "hi\n"⟩, ⟨.name "x", .str "hi", ""⟩]]

theorem lineOf_greeting : List.Forall₂ LineOf greeting greetingSteps := by
  have hset : parse "(set x \"hi\")".toList =
      .ok [.expr [.name "set", .name "x", .str "hi"]] := by cbv
  have hprint : parse " (println x) x".toList =
      .ok [.expr [.name "println", .name "x"], .name "x"] := by cbv
  have hfits : ∀ cs : List Char, cs.length < 202 → Fits cs :=
    fun _ h => (readsWithin_of_length_lt h).fits
  exact .cons ⟨by decide, by decide, by decide, hset, hfits _ (by decide)⟩
    (.cons ⟨by decide, by decide, by decide, hprint, hfits _ (by decide)⟩ .nil)

/-- What a run of the script on an empty input leaves. -/
def greeted : State :=
  ⟨Environment.initial.define "x" (.str "hi"), ⟨[], .closed, "hi\n", "", 30⟩⟩

theorem performs_greeting : Performs Dropped greetingSteps.flatten
    ⟨Environment.initial, .ofInput "" .closed 30⟩ greeted := by
  refine .cons (t := ⟨Environment.initial.define "x" (.str "hi"), .ofInput "" .closed 30⟩)
    ⟨0, ?_, trivial⟩ rfl rfl (.cons (t := greeted) ⟨0, ?_, trivial⟩ rfl rfl
      (.cons (t := greeted) ⟨0, ?_, trivial⟩ rfl rfl (.nil greeted)))
  · exact evalForm_ok_iff.mpr rfl
  · exact evalForm_ok_iff.mpr rfl
  · exact evalForm_ok_iff.mpr rfl

theorem typed_as_script_greeting :
    List.Forall₂ LineOf greeting greetingSteps ∧ Fits (joined greeting) ∧
    Performs Dropped greetingSteps.flatten ⟨Environment.initial, .ofInput "" .closed 30⟩ greeted ∧
    (∀ step ∈ greetingSteps.flatten, ∃ text, step.value.inspect = .ok text) ∧
    ∃ last final : State, last.env = greeted.env ∧ final.env = greeted.env ∧
      last.console.out = "" ++ banner ++ "> \"hi\"\n> hi\n\"hi\"\n" ∧
      final.console.out = "" ++ "hi\n" ∧
      ∃ enough, ∀ rounds, enough ≤ rounds →
        dialogue rounds ⟨30, "> ", false⟩ false
            ⟨Environment.initial, .ofInput "(set x \"hi\")\n (println x) x\n" .closed 30⟩ =
          .ok () (said (said last "> ") "\n") ∧
        runScript rounds false "greeting" (.ok (scriptOf greeting))
            ⟨Environment.initial, .ofInput "" .closed 30⟩ = .ok 0 final := by
  have hshown : ∀ step ∈ greetingSteps.flatten, ∃ text, step.value.inspect = .ok text := by
    simp only [greetingSteps, List.flatten_cons, List.flatten_nil, List.cons_append,
      List.nil_append, List.forall_mem_cons]
    exact ⟨⟨_, rfl⟩, ⟨_, rfl⟩, ⟨_, rfl⟩, by simp⟩
  have hfits : Fits (joined greeting) := (readsWithin_of_length_lt (by decide)).fits
  obtain ⟨last, final, ⟨_, hlast, hout⟩, ⟨_, hfinal, hout'⟩, hruns⟩ :=
    typed_as_script lineOf_greeting hfits performs_greeting rfl hshown ⟨30, "> ", false⟩ false false
      "greeting" (d := .ofInput "(set x \"hi\")\n (println x) x\n" .closed 30)
      (e := .ofInput "" .closed 30) (by decide) rfl
  exact ⟨lineOf_greeting, hfits, performs_greeting, hshown, last, final, hlast, hfinal, hout,
    hout', hruns⟩

end MiniLisp.Session
