import MiniLisp.Document.Events
import MiniLisp.Proofs.Source.LongLiterals

/-!
# The workspace follows its events

After any events each open document has the text that an editor told of last, with the index of
just this text, and what is published of it are the errors of this index; a document that was
closed is gone, and its errors with it (`Workspace.afterAll_reflects`). Events for which this
cannot be are dropped whole: their text has an integer with more digits than are read, and so no
index.
-/

namespace MiniLisp.Document

/-- A text has no index if an integer in it has more digits than are read. -/
theorem index_error_cases [Host] {cs : List Char} {f : Fault} (h : index cs = .error f) :
    parse cs = .error (.fault f) ∧ (∃ n, f = .literalTooLong n) ∧
      ∃ t ∈ (Cursor.ofText cs).tokens.1, t.kind = .int ∧
        Decimal.digitLimit < (Decimal.unsigned t.content).length := by
  unfold index at h
  split at h
  · cases h
  · cases h
  · rename_i hparse
    cases h
    rcases parse_error_cases hparse with ⟨e, he⟩ | ⟨⟨n, hn⟩, hlong⟩
    · cases he
    · cases hn
      exact ⟨hparse, ⟨n, rfl⟩, hlong⟩

/-! ## Events -/

theorem find?_reverse_concat {α : Type} (p : α → Bool) (xs : List α) (x : α) :
    (xs ++ [x]).reverse.find? p = if p x then some x else xs.reverse.find? p := by
  rw [List.reverse_concat, List.find?_cons]
  cases p x <;> rfl

/-- The last of some events that is about a document, if there is one. -/
def lastAbout? (address : String) (events : List Event) : Option Event :=
  events.reverse.find? (·.address == address)

section Host

variable [Host]

/-- The event can be handled: the text that it brings, if it does, has an index. -/
def Event.isHandled (e : Event) : Bool := e.text?.all fun text => (index text).isOk

/-- Of the events that were handled, the last about a document is the one at the end if it is such
a one. -/
theorem lastAbout?_filter_concat (address : String) (events : List Event) (e : Event) :
    lastAbout? address ((events ++ [e]).filter Event.isHandled) =
      if e.isHandled = true ∧ e.address = address then some e
      else lastAbout? address (events.filter Event.isHandled) := by
  rw [List.filter_append]
  cases he : e.isHandled with
  | false => simp [he]
  | true =>
    rw [List.filter_cons_of_pos he, List.filter_nil, lastAbout?, find?_reverse_concat]
    simp only [beq_iff_eq, true_and, lastAbout?]

end Host

namespace Workspace

theorem latestProblems?_concat (store : Store) (published : List Publication)
    (p : Publication) (address : String) :
    (⟨store, published ++ [p]⟩ : Workspace).latestProblems? address =
      if p.address = address then some p.problems
      else (⟨store, published⟩ : Workspace).latestProblems? address := by
  simp only [latestProblems?, find?_reverse_concat, beq_iff_eq]
  split <;> rfl

section Host

variable [Host]

/-- What the workspace has of a document, if the event is the last that was handled of those about
it. -/
def Reflects (w : Workspace) (address : String) : Option Event → Prop
  | none => w.store.get? address = none ∧ w.latestProblems? address = none
  | some e =>
    match e.text? with
    | none => w.store.get? address = none ∧ w.latestProblems? address = some []
    | some text => ∃ idx, index text = .ok idx ∧ w.store.get? address = some ⟨text, idx⟩ ∧
        w.latestProblems? address = some idx.problem.toList

/-! ## One event -/

/-- All that an event can do: it is dropped, or the document has its text, or is closed. -/
theorem after_cases (w : Workspace) (e : Event) :
    (∃ text f, e.text? = some text ∧ index text = .error f ∧ w.after e = w) ∨
    (∃ text idx, e.text? = some text ∧ index text = .ok idx ∧
      w.after e = ⟨w.store.insert e.address ⟨text, idx⟩,
        w.published ++ [⟨e.address, idx.problem.toList⟩]⟩) ∨
    (e.text? = none ∧ w.after e = ⟨w.store.erase e.address, w.published ++ [⟨e.address, []⟩]⟩) := by
  have hupdate : ∀ address text, w.store.update address text = (index text).map fun idx =>
      (w.store.insert address ⟨text, idx⟩, ⟨address, idx.problem.toList⟩) := by
    intro address text
    rw [Store.update]
    cases index text <;> rfl
  cases e with
  | closed address => exact .inr (.inr ⟨rfl, rfl⟩)
  | opened address text | changed address text =>
    simp only [after, handle, hupdate]
    cases hindex : index text with
    | error f => exact .inl ⟨text, f, rfl, hindex, rfl⟩
    | ok idx => exact .inr (.inl ⟨text, idx, rfl, hindex, rfl⟩)

/-- An event leaves the other documents alone. -/
theorem after_other (w : Workspace) {e : Event} {address : String} (h : address ≠ e.address) :
    (w.after e).store.get? address = w.store.get? address ∧
      (w.after e).latestProblems? address = w.latestProblems? address := by
  rcases w.after_cases e with ⟨_, _, _, _, heq⟩ | ⟨_, _, _, _, heq⟩ | ⟨_, heq⟩
  · rw [heq]
    exact ⟨rfl, rfl⟩
  · rw [heq, latestProblems?_concat, if_neg (Ne.symm h)]
    exact ⟨(Table.get?_insert ..).trans (if_neg h), rfl⟩
  · rw [heq, latestProblems?_concat, if_neg (Ne.symm h)]
    exact ⟨(Table.get?_erase ..).trans (if_neg h), rfl⟩

/-- An event that is handled shows in its document. -/
theorem after_reflects (w : Workspace) {e : Event} (he : e.isHandled = true) :
    (w.after e).Reflects e.address (some e) := by
  rcases w.after_cases e with ⟨text, f, htext, hindex, _⟩ | ⟨text, idx, htext, hindex, heq⟩ |
    ⟨htext, heq⟩
  · rw [Event.isHandled, htext, Option.all_some, hindex] at he
    cases he
  · rw [heq, Reflects, htext]
    exact ⟨idx, hindex, Table.get?_insert_self .., by rw [latestProblems?_concat, if_pos rfl]⟩
  · rw [heq, Reflects, htext]
    exact ⟨(Table.get?_erase ..).trans (if_pos rfl), by rw [latestProblems?_concat, if_pos rfl]⟩

/-- An event that is not handled is dropped, for an integer that is too long to be read. -/
theorem after_of_not_handled (w : Workspace) {e : Event} (he : e.isHandled = false) :
    w.after e = w ∧ ∃ text, e.text? = some text ∧
      ∃ t ∈ (Cursor.ofText text).tokens.1, t.kind = .int ∧
        Decimal.digitLimit < (Decimal.unsigned t.content).length := by
  rcases w.after_cases e with ⟨text, f, htext, hindex, heq⟩ | ⟨text, idx, htext, hindex, _⟩ |
    ⟨htext, _⟩
  · exact ⟨heq, text, htext, (index_error_cases hindex).2.2⟩
  · rw [Event.isHandled, htext, Option.all_some, hindex] at he
    cases he
  · rw [Event.isHandled, htext] at he
    cases he

/-- A document that is reflected still is after an event: the event is the last one now if it is
about the document and was handled. -/
theorem Reflects.after {w : Workspace} {address : String} {last : Option Event}
    (h : w.Reflects address last) (e : Event) : (w.after e).Reflects address
      (if e.isHandled = true ∧ e.address = address then some e else last) := by
  cases he : e.isHandled with
  | false =>
    rw [(w.after_of_not_handled he).1, if_neg (by simp)]
    exact h
  | true =>
    by_cases haddress : e.address = address
    · rw [if_pos ⟨rfl, haddress⟩, ← haddress]
      exact w.after_reflects he
    · -- the event is about another document, and nothing is said of this one
      rw [if_neg fun hboth => haddress hboth.2]
      obtain ⟨hstore, hproblems⟩ := w.after_other (Ne.symm haddress)
      unfold Reflects at h ⊢
      rwa [hstore, hproblems]

/-! ## All events -/

theorem afterAll_concat (events : List Event) (e : Event) :
    afterAll (events ++ [e]) = (afterAll events).after e := by
  rw [afterAll, List.foldl_append]
  rfl

theorem afterAll_reflects_last (events : List Event) (address : String) :
    (afterAll events).Reflects address
      (lastAbout? address (events.filter Event.isHandled)) := by
  induction events using List.reverseRecOn with
  | nil => exact ⟨rfl, rfl⟩
  | append_singleton events e ih =>
    rw [afterAll_concat, lastAbout?_filter_concat]
    exact ih.after e

/-- Of every document the workspace has what the last event says that is about it and could be
handled: the text with its index, and nothing if it was closed; and these are the errors published
last. An event leaves other documents alone, and one that cannot be handled, because of an integer
that is too long to be read, changes nothing. -/
theorem afterAll_reflects (events : List Event) :
    (∀ address, (afterAll events).Reflects address
      (lastAbout? address (events.filter Event.isHandled))) ∧
    ∀ e : Event,
      (∀ address, address ≠ e.address →
        (afterAll (events ++ [e])).store.get? address = (afterAll events).store.get? address ∧
          (afterAll (events ++ [e])).latestProblems? address =
            (afterAll events).latestProblems? address) ∧
      (e.isHandled = false → afterAll (events ++ [e]) = afterAll events ∧
        ∃ text, e.text? = some text ∧ ∃ t ∈ (Cursor.ofText text).tokens.1, t.kind = .int ∧
          Decimal.digitLimit < (Decimal.unsigned t.content).length) := by
  refine ⟨afterAll_reflects_last events, fun e => ?_⟩
  rw [afterAll_concat]
  exact ⟨fun address h => (afterAll events).after_other h,
    (afterAll events).after_of_not_handled⟩

/-- A text with an index is kept when the document's text becomes a row of too many digits. -/
theorem afterAll_digits {address : String} {text ds : List Char} {idx : Index}
    (htext : index text = .ok idx) (hds : ∀ c ∈ ds, c.isDigit = true)
    (hlong : Decimal.digitLimit < ds.length) :
    (afterAll [.opened address text, .changed address (ds ++ ['\n'])]).store.get? address =
      some ⟨text, idx⟩ := by
  have hdropped : (Event.changed address (ds ++ ['\n'])).isHandled = false := by
    simp [Event.isHandled, Event.text?, index, parse_digits hds hlong, Except.isOk, Except.toBool]
  have hopened : (Event.opened address text).isHandled = true := by
    simp [Event.isHandled, Event.text?, htext, Except.isOk, Except.toBool]
  show (((empty.after (.opened address text)).after (.changed address _)).store.get? address) = _
  rw [((empty.after (.opened address text)).after_of_not_handled hdropped).1]
  obtain ⟨idx', hidx', hstore, _⟩ := empty.after_reflects hopened
  rw [htext] at hidx'
  cases hidx'
  exact hstore

end Host

/-- A document whose text has become a row of 4301 digits still has the text that it had before, and
the index of that. -/
theorem afterAll_keeps_old_text : ∃ old new,
    old = "(set x 1)".toList ∧ new = List.replicate 4301 '9' ++ ['\n'] ∧ old ≠ new ∧
      ∃ idx, index old = .ok idx ∧
        (afterAll [.opened "a" old, .changed "a" new]).store.get? "a" = some ⟨old, idx⟩ := by
  refine ⟨_, _, rfl, rfl, ?_, ?_⟩
  · intro heq
    have hlength := congrArg List.length heq
    rw [List.length_append, List.length_replicate] at hlength
    exact absurd hlength (by decide)
  · have hold : parse "(set x 1)".toList = .ok [.expr [.name "set", .name "x", .int 1]] := by cbv
    have hindex : index "(set x 1)".toList = .ok ⟨definitions "(set x 1)".toList, none⟩ := by
      rw [index, hold]
    refine ⟨_, hindex, afterAll_digits hindex ?_ ?_⟩
    · intro c hc
      rw [List.eq_of_mem_replicate hc]
      decide
    · rw [List.length_replicate]
      decide

end Workspace

end MiniLisp.Document
