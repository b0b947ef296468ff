import MiniLisp.Proofs.Evaluation.Contract

/-!
# What evaluation does to the console

Evaluating takes lines from the front of the input and writes behind what is written. On the
second output it writes nothing but lines of the log (`evalForm_follows`), so whatever else stands
there has been put there by the session.
-/

namespace MiniLisp

/-- Some lines of the log. -/
inductive LogText : String → Prop where
  | none : LogText ""
  | line {text : String} (h : LogText text) (level : LogLevel) (part message : String) :
      LogText (text ++ (level.label ++ " " ++ part ++ ": " ++ message ++ "\n"))

theorem LogText.append {a b : String} (ha : LogText a) (hb : LogText b) : LogText (a ++ b) := by
  induction hb with
  | none => rwa [String.append_empty]
  | line _ level part message ih =>
    rw [← String.append_assoc]
    exact ih.line level part message

namespace Console

/-- The second console is the first after a time in which lines have been read, and nothing but
the log has been written to the second output. -/
structure Follows (c d : Console) : Prop where
  input : d.input <:+ c.input
  inputEnd : d.inputEnd = c.inputEnd
  threshold : d.threshold = c.threshold
  out : ∃ text, d.out = c.out ++ text
  err : ∃ text, LogText text ∧ d.err = c.err ++ text

theorem Follows.refl (c : Console) : c.Follows c :=
  ⟨List.suffix_refl _, rfl, rfl, ⟨"", by rw [String.append_empty]⟩,
    ⟨"", .none, by rw [String.append_empty]⟩⟩

theorem Follows.trans {c d e : Console} (h : c.Follows d) (h' : d.Follows e) : c.Follows e := by
  obtain ⟨out, hout⟩ := h.out
  obtain ⟨out', hout'⟩ := h'.out
  obtain ⟨err, hlog, herr⟩ := h.err
  obtain ⟨err', hlog', herr'⟩ := h'.err
  exact ⟨h'.input.trans h.input, h'.inputEnd.trans h.inputEnd, h'.threshold.trans h.threshold,
    ⟨out ++ out', by rw [hout', hout, String.append_assoc]⟩,
    ⟨err ++ err', hlog.append hlog', by rw [herr', herr, String.append_assoc]⟩⟩

theorem follows_write (c : Console) (text : String) : c.Follows (c.write text) :=
  { Follows.refl c with out := ⟨text, rfl⟩ }

theorem follows_log (c : Console) (level : LogLevel) (part message : String) :
    c.Follows (c.log level part message) := by
  unfold log
  split
  · exact { Follows.refl c with
      err := ⟨_, LogText.none.line level part message, by rw [String.empty_append]; rfl⟩ }
  · exact .refl c

theorem follows_readLine (c : Console) : c.Follows c.readLine.2 := by
  unfold readLine
  split
  · split <;> exact .refl c
  · exact { Follows.refl c with input := ⟨_, Text.takeLine_append c.input⟩ }

/-- A line that is read is missing from the input. -/
theorem length_lt_of_readLine {c d : Console} {cs : List Char} (h : c.readLine = (.line cs, d)) :
    d.input.length < c.input.length := by
  unfold Console.readLine at h
  cases hinput : c.input with
  | nil =>
    rw [hinput] at h
    simp only [List.isEmpty_nil, if_true] at h
    split at h <;> cases h
  | cons x xs =>
    rw [hinput] at h
    cases h
    exact Text.length_takeLine_lt x xs

end Console

open MiniLisp.Action

theorem Action.withConsole_readLine {s : State} {c : Console} {read : LineRead}
    (h : s.console.readLine = (read, c)) :
    Action.withConsole Console.readLine s = .ok read { s with console := c } := by
  rw [Action.withConsole, h]

/-- Whatever a form is, evaluating it only goes on with the console. -/
theorem contract_follows (c : Console) :
    Contract (fun s => c.Follows s.console) (fun _ s => c.Follows s.console) (fun _ => True) where
  data _ _ := trivial
  write s text hs := hs.trans (s.console.follows_write text)
  log s level part message hs := hs.trans (s.console.follows_log level part message)
  read s hs := hs.trans s.console.follows_readLine
  error _ _ hs _ := hs
  interrupted _ hs _ := hs
  outOfRounds _ hs := hs
  tooDeep _ hs := hs

theorem evaluate_follows [Host] (c : Console) (rounds room : Nat) (node : Node) :
    Gives (fun s => c.Follows s.console) (fun _ s => c.Follows s.console) (fun _ => True)
      (evaluate rounds room node) := by
  refine (contract_follows c).evaluation (fun _ => True) ?_ (fun _ _ _ _ _ _ _ hs => hs) ?_ node
    trivial room
  · exact fun x _ => .lookup (fun _ _ _ _ => trivial) fun _ hs _ => hs
  · intro room head tail _ ih
    exact (contract_follows c).form (fun _ => True) (ih head List.mem_cons_self trivial room)
      (fun item h => ih item (List.mem_cons_of_mem head h) trivial)
      (fun _ _ _ _ _ _ _ hs => hs) fun _ _ _ _ _ hs _ => hs

/-- The console that evaluating a form leaves follows the one it began with, also where the form
halts. -/
theorem evalForm_follows [Host] (rounds : Nat) (node : Node) (c : Console) :
    Gives (fun s => c.Follows s.console) (fun _ s => c.Follows s.console) (fun _ => True)
      (evalForm rounds node) :=
  (evaluate_follows c rounds Host.stack node).evalForm fun _ _ hs => hs

end MiniLisp
