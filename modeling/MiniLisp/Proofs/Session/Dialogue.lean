import Mathlib.Logic.Relation
import MiniLisp.Proofs.Session.Lines
import MiniLisp.Proofs.Source.LongLiterals

/-!
# Dialogues

A dialogue goes on from line to line (`Turn`): a line that does not quit is handled, with at most
one error reported, and the next line finds the state that this has left. `dialogue_ends` says how
a dialogue ends: it is left at the end of the input or by a line that quits, unless a line breaks
it. `dialogue_digits` gives lines that do.
-/

namespace MiniLisp.Session

open MiniLisp.Action

/-! ## How a dialogue goes on, and how it ends -/

/-- The prompt is written and a line is read. -/
def Asks (settings : Settings) (s : State) (cs : List Char) (t : State) : Prop :=
  t.env = s.env ∧ (s.console.write settings.prompt).readLine = (.line cs, t.console)

/-- The dialogue is left: the input is at its end, or a line quits. -/
inductive Leaves (settings : Settings) (s : State) : State → Prop where
  | ended (hinput : s.console.input = []) :
      Leaves settings s (said (said s settings.prompt) "\n")
  | quit {cs : List Char} {t : State} (hasks : Asks settings s cs t)
      (hline : Command.ofLine cs = .quit) : Leaves settings s (said t farewell)

section Host

variable [Host]

/-- A line is read that does not quit, and is handled. -/
def Turn (settings : Settings) (coloured : Bool) (s t : State) : Prop :=
  ∃ cs u, Asks settings s cs u ∧ Command.ofLine cs ≠ .quit ∧ Handled coloured cs u t ∧
    ReportsOnce coloured u.console t.console

/-- What a dialogue comes to from the state before its last line. -/
inductive DialogueEnd (rounds : Nat) (settings : Settings) (coloured : Bool) (s : State) :
    EStateM.Result Halt State Unit → Prop where
  | left {t : State} (h : Leaves settings s t) : DialogueEnd rounds settings coloured s (.ok () t)
  | broken {cs : List Char} {t u : State} {f : Fault} (hasks : Asks settings s cs t)
      (hline : Command.ofLine cs = .run) (h : Breaks coloured cs t f) :
      DialogueEnd rounds settings coloured s (.error (.fault f) u)
  /-- A loop of the line's forms is not at its end after so many rounds. -/
  | unfinished {cs : List Char} {t u : State} (hasks : Asks settings s cs t)
      (h : runLine rounds coloured cs t = .error .outOfRounds u) :
      DialogueEnd rounds settings coloured s (.error .outOfRounds u)

end Host

/-! ## From turn to turn -/

section Turns

variable {settings : Settings} {coloured : Bool} {s t : State}

theorem readLine_of_nil {c : Console} (hend : c.inputEnd = .closed) (h : c.input = []) :
    c.readLine = (.ended, c) := by
  unfold Console.readLine
  rw [if_pos (by simpa using h), hend]

theorem readLine_of_ne_nil {c : Console} (h : c.input ≠ []) :
    c.readLine =
      (.line (Text.takeLine c.input).1, { c with input := (Text.takeLine c.input).2 }) := by
  unfold Console.readLine
  rw [if_neg (by simpa using h)]

/-- Reading a line of the dialogue uses the console and nothing else. -/
theorem readLine?_eq : readLine? = Action.withConsole Console.readLine >>= fun read =>
    match read with
    | .line cs => pure (some cs)
    | .ended => pure none
    | .failed reason => throw (.fault (.readFailed reason))
    | .interrupted => throw (.fault .interrupted) := rfl

theorem exists_asks (settings : Settings) (h : s.console.input ≠ []) :
    ∃ cs t, Asks settings s cs t := by
  have hread := readLine_of_ne_nil (c := s.console.write settings.prompt) h
  exact ⟨_, ⟨s.env, (s.console.write settings.prompt).readLine.2⟩, rfl, by rw [hread]⟩

theorem Asks.inputEnd {cs : List Char} (h : Asks settings s cs t) :
    t.console.inputEnd = s.console.inputEnd := by
  have hfollows := (s.console.write settings.prompt).follows_readLine
  rw [h.2] at hfollows
  exact hfollows.inputEnd

theorem Asks.length_lt {cs : List Char} (h : Asks settings s cs t) :
    t.console.input.length < s.console.input.length :=
  Console.length_lt_of_readLine (c := s.console.write settings.prompt) h.2

section Host

variable [Host]

/-- A turn takes a line from the input. -/
theorem Turn.length_lt (h : Turn settings coloured s t) :
    t.console.inputEnd = s.console.inputEnd ∧
      t.console.input.length < s.console.input.length := by
  obtain ⟨cs, u, hasks, _, _, b, hfollows, hb⟩ := h
  have hshorter := hasks.length_lt
  have hle := hfollows.input.length_le
  -- a report at the end of the turn does not touch the input
  have hinput : t.console.inputEnd = b.inputEnd ∧ t.console.input = b.input := by
    rcases hb with hb | ⟨report, hb⟩ <;> rw [hb]
    · exact ⟨rfl, rfl⟩
    · exact ⟨rfl, rfl⟩
  rw [hinput.1, hinput.2, hfollows.inputEnd]
  exact ⟨hasks.inputEnd, by omega⟩

/-- What a turn does with its line. -/
theorem turn_of_asks {cs : List Char} (rounds : Nat) (coloured : Bool)
    (h : Asks settings s cs t) : turn rounds settings coloured s =
      (match Command.ofLine cs with
        | .quit => do
          write farewell
          return false
        | .tell text => do
          write (text ++ "\n")
          return true
        | .run => do
          let _ ← runLine rounds coloured cs
          return true : Action Bool) t := by
  obtain ⟨henv, hread⟩ := h
  have hprompt : write settings.prompt s = .ok () (said s settings.prompt) := rfl
  have hstate : t = { said s settings.prompt with console := t.console } := by
    rw [said, ← henv]
  unfold turn
  rw [bind_of_ok hprompt, readLine?_eq, bind_assoc,
    bind_of_ok (withConsole_readLine (s := said s settings.prompt) hread), ← hstate]
  rfl

/-- Where there is no more input, the turn is the last. -/
theorem turn_of_nil (rounds : Nat) (settings : Settings) (coloured : Bool)
    (hend : s.console.inputEnd = .closed) (hnil : s.console.input = []) :
    turn rounds settings coloured s = .ok false (said (said s settings.prompt) "\n") := by
  have hprompt : write settings.prompt s = .ok () (said s settings.prompt) := rfl
  have hread := readLine_of_nil (c := (said s settings.prompt).console) hend hnil
  unfold turn
  rw [bind_of_ok hprompt, readLine?_eq, bind_assoc, bind_of_ok (withConsole_readLine hread)]
  rfl

end Host

end Turns

section Host

variable [Host]

/-- One turn hands over to the next, or is the last. -/
theorem turn_cases (rounds : Nat) (settings : Settings) (coloured : Bool) {s : State}
    (hinput : s.console.inputEnd = .closed) :
    (∃ t, turn rounds settings coloured s = .ok true t ∧ Turn settings coloured s t) ∨
      (∃ t, turn rounds settings coloured s = .ok false t ∧ Leaves settings s t) ∨
      ∃ halt t, turn rounds settings coloured s = .error halt t ∧
        DialogueEnd rounds settings coloured s (.error halt t) := by
  by_cases hnil : s.console.input = []
  · exact .inr (.inl ⟨_, turn_of_nil rounds settings coloured hinput hnil, .ended hnil⟩)
  · obtain ⟨cs, u, hasks⟩ := exists_asks settings hnil
    rw [turn_of_asks rounds coloured hasks]
    cases hline : Command.ofLine cs with
    | quit => exact .inr (.inl ⟨_, rfl, .quit hasks hline⟩)
    | tell text =>
      have hhandled : Handled coloured cs u _ := .told hline
      exact .inl ⟨_, rfl, cs, u, hasks, by simp [hline], hhandled, hhandled.reportsOnce⟩
    | run =>
      have hrun := runLine_ends rounds coloured hline (s := u) (by simp [hasks.inputEnd, hinput])
      cases heq : runLine rounds coloured cs u with
      | ok b t =>
        rw [heq] at hrun
        cases hrun with
        | handled h =>
          exact .inl ⟨t, bind_of_ok heq _, cs, u, hasks, by simp [hline], h, h.reportsOnce⟩
      | error halt t =>
        rw [heq] at hrun
        refine .inr (.inr ⟨halt, t, bind_of_error heq _, ?_⟩)
        cases hrun with
        | broken h => exact .broken hasks hline h
        | unfinished => exact .unfinished hasks heq

theorem takeTurns_ends (rounds : Nat) (settings : Settings) (coloured : Bool) (turns : Nat) :
    ∀ s : State, s.console.inputEnd = .closed → s.console.input.length < turns →
      ∃ last, Relation.ReflTransGen (Turn settings coloured) s last ∧
        DialogueEnd rounds settings coloured last (takeTurns rounds settings coloured turns s) := by
  induction turns with
  | zero => exact fun s _ h => absurd h (Nat.not_lt_zero _)
  | succ turns ih =>
    intro s hinput hturns
    rw [takeTurns]
    rcases turn_cases rounds settings coloured hinput with
      ⟨t, hturn, h⟩ | ⟨t, hturn, h⟩ | ⟨halt, t, hturn, h⟩
    · rw [bind_of_ok hturn]
      obtain ⟨hend, hshorter⟩ := h.length_lt
      obtain ⟨last, hturns, hlast⟩ := ih t (hend.trans hinput) (by omega)
      exact ⟨last, .head h hturns, hlast⟩
    · rw [bind_of_ok hturn]
      exact ⟨s, .refl, .left h⟩
    · rw [bind_of_error hturn]
      exact ⟨s, .refl, h⟩

/-- A dialogue on an input that is at its end sometime goes from line to line, each of which is
handled, until it is left there or by a line that quits, unless a line breaks it or does not come
to an end. -/
theorem dialogue_ends (rounds : Nat) (settings : Settings) (isTerminal : Bool) {s : State}
    (hinput : s.console.inputEnd = .closed) :
    ∃ last,
      Relation.ReflTransGen (Turn settings (settings.colours isTerminal)) (said s banner) last ∧
        DialogueEnd rounds settings (settings.colours isTerminal) last
          (dialogue rounds settings isTerminal s) :=
  takeTurns_ends rounds settings (settings.colours isTerminal) _ (said s banner) hinput
    (Nat.lt_succ_self _)

end Host

/-- A dialogue in which a line is reported that names what is not bound, and the next quits. -/
theorem dialogue_ends_quit : ∃ s,
    s = ⟨Environment.initial, Console.ofInput "(set a b)\n q \n" .closed 30⟩ ∧
    s.console.inputEnd = .closed ∧
    ∃ last, Relation.ReflTransGen (Turn ⟨30, Settings.defaultPrompt, true⟩ false)
        (said s banner) last ∧
      DialogueEnd 0 ⟨30, Settings.defaultPrompt, true⟩ false last
        (dialogue 0 ⟨30, Settings.defaultPrompt, true⟩ false s) :=
  ⟨_, rfl, rfl, dialogue_ends 0 ⟨30, Settings.defaultPrompt, true⟩ false rfl⟩

/-! ## A line that breaks a dialogue -/

section Digits

variable {ds : List Char}

theorem trimBlanks_digits (hne : ds ≠ []) (hds : ∀ c ∈ ds, c.isDigit = true) :
    Text.trimBlanks ds = ds := by
  have hblank : ∀ c ∈ ds, Text.isBlank c = false := fun c hc =>
    isBlank_of_isNameChar (isNameChar_of_isDigit (Lexeme.isDigit_iff.mpr (hds c hc)))
  have hfront : ds.dropWhile Text.isBlank = ds := by
    obtain ⟨d, ds', rfl⟩ := List.exists_cons_of_ne_nil hne
    exact List.dropWhile_cons_of_neg (by simp [hblank d])
  have hback : ds.reverse.dropWhile Text.isBlank = ds.reverse := by
    obtain ⟨d, ds', hreverse⟩ := List.exists_cons_of_ne_nil (List.reverse_ne_nil_iff.mpr hne)
    have hd : d ∈ ds := List.mem_reverse.mp (hreverse ▸ List.mem_cons_self)
    rw [hreverse]
    exact List.dropWhile_cons_of_neg (by simp [hblank d hd])
  rw [Text.trimBlanks, hfront, hback, List.reverse_reverse]

/-- A row of digits is a line to be run. -/
theorem ofLine_digits (hne : ds ≠ []) (hds : ∀ c ∈ ds, c.isDigit = true) :
    Command.ofLine (ds ++ ['\n']) = .run := by
  -- the words that ask for something else have letters
  have hword : ∀ (c : Char) (word : String), c ∈ word.toList → c.isDigit = false →
      String.ofList ds ≠ word := by
    intro c word hc hletter heq
    have hmem : c ∈ ds := by rwa [← heq, String.toList_ofList] at hc
    rw [hds c hmem] at hletter
    cases hletter
  unfold Command.ofLine
  rw [Text.trimBlanks_append_blank ds (by decide), trimBlanks_digits hne hds]
  split
  · rename_i heq
    exact absurd heq (hword 'q' "q" (by decide) (by decide))
  · rename_i heq
    exact absurd heq (hword 'q' "quit" (by decide) (by decide))
  · rename_i heq
    exact absurd heq (hword 'b' "bugs" (by decide) (by decide))
  · rename_i heq
    exact absurd heq (hword 'c' "copyright" (by decide) (by decide))
  · rfl

end Digits

/-- A line of more digits than are read ends a dialogue with a fault, whatever stands behind it. -/
theorem dialogue_digits [Host] (rounds : Nat) (settings : Settings) (isTerminal : Bool) {s : State}
    {ds rest : List Char} (hds : ∀ c ∈ ds, c.isDigit = true)
    (hlong : Decimal.digitLimit < ds.length) (hinput : s.console.input = ds ++ '\n' :: rest) :
    ∃ t, dialogue rounds settings isTerminal s =
      .error (.fault (.literalTooLong ds.length)) t := by
  have hne : ds ≠ [] := List.ne_nil_of_length_pos (Nat.zero_lt_of_lt hlong)
  have hnonempty : (said s banner).console.input ≠ [] := by
    rw [show (said s banner).console.input = ds ++ '\n' :: rest from hinput]
    exact List.append_ne_nil_of_left_ne_nil hne _
  obtain ⟨cs, u, hasks⟩ := exists_asks settings hnonempty
  have hnewline : '\n' ∉ ds := fun hmem => absurd (hds _ hmem) (by decide)
  -- the line that is read is the row of digits
  have hcs : cs = ds ++ ['\n'] := by
    have hread := readLine_of_ne_nil
      (c := (said s banner).console.write settings.prompt) hnonempty
    rw [hasks.2, show ((said s banner).console.write settings.prompt).input =
      ds ++ '\n' :: rest from hinput, Text.takeLine_append_newline hnewline] at hread
    exact LineRead.line.inj (congrArg Prod.fst hread)
  subst hcs
  have hline : runLine rounds (settings.colours isTerminal) (ds ++ ['\n']) u =
      .error (.fault (.literalTooLong ds.length)) (logged (ds ++ ['\n']) u) := by
    unfold runLine readAnd
    rw [bind_of_ok (readLogged_apply _ u), parse_digits hds hlong]
    rfl
  refine ⟨logged (ds ++ ['\n']) u, ?_⟩
  have hturn : turn rounds settings (settings.colours isTerminal) (said s banner) =
      .error (.fault (.literalTooLong ds.length)) (logged (ds ++ ['\n']) u) := by
    rw [turn_of_asks rounds _ hasks, ofLine_digits hne hds]
    exact bind_of_error hline _
  exact bind_of_error hturn _

/-- A sum on the line behind 4301 digits is not computed: the dialogue is not there any more. -/
theorem dialogue_broken_by_digits : ∃ s,
    s = ⟨Environment.initial, Console.ofInput
      (String.ofList (List.replicate 4301 '9' ++ "\n(+ 1 2)\n".toList)) .closed 30⟩ ∧
    ∀ rounds, ∃ t, dialogue rounds ⟨30, Settings.defaultPrompt, false⟩ false s =
      .error (.fault (.literalTooLong 4301)) t := by
  refine ⟨_, rfl, fun rounds => ?_⟩
  have hdigits : ∀ c ∈ List.replicate 4301 '9', c.isDigit = true := by
    intro c hc
    rw [List.eq_of_mem_replicate hc]
    decide
  have hlength : (List.replicate 4301 '9').length = 4301 := List.length_replicate
  generalize List.replicate 4301 '9' = ds at hdigits hlength
  have hinput : (String.ofList (ds ++ "\n(+ 1 2)\n".toList)).toList =
      ds ++ '\n' :: "(+ 1 2)\n".toList := String.toList_ofList
  rw [← hlength]
  exact dialogue_digits rounds _ false hdigits (by rw [hlength]; decide) hinput

end MiniLisp.Session
