import MiniLisp.Node
import MiniLisp.Text.Blank
import MiniLisp.Value

/-!
# The host

Two limits are set by what the language runs on. Forms and values are walked by calls inside one
another, and the stack that holds these is full at some depth: how many frames it has, and how many
of them each call takes, is a matter of the host. So is how large a text or list may become that a
repetition builds. `Host` leaves both open, and states no more of them than that a hundred levels
fit, and that with a result every smaller one can be built.
-/

namespace MiniLisp

/-- The calls that are made inside one another. -/
inductive Call where
  /-- A form is evaluated. -/
  | evaluate (kind : NodeKind)
  /-- The arguments of a head are evaluated, all in one call. -/
  | arguments
  /-- A special form sets to work on its arguments. -/
  | special (form : SpecialForm)
  /-- The condition of a special form is tested. -/
  | condition
  | native (fn : Native)
  | apply (op : Operator) (operands : List Value)
  /-- A form is made data. -/
  | quote (kind : NodeKind)
  /-- Two values are compared that lie in lists, or may be lists. -/
  | equal (left right : ValueKind)
  /-- A value is written. -/
  | text (style : Value.Style) (kind : ValueKind)
  /-- A form is written. -/
  | source (kind : NodeKind)

/-- What is relied on of a host. -/
class Host where
  /-- How many frames are free where a form, a value or a text is begun with. -/
  stack : Nat
  /-- How many frames a call takes before it makes another of these, or returns. -/
  frames : Call → Nat
  /-- A hundred levels of calls fit, with one around them and one at their end. -/
  hundred : ∀ call, 102 * frames call ≤ stack
  /-- How many levels of forms fit while the text is read. Its layout has a part in this, since a
  frame more is taken where blanks are skipped. -/
  levels : List Char → Nat
  /-- A hundred levels of quoted lists fit, with a quoted name in the innermost. -/
  hundred_levels : ∀ cs, 202 ≤ levels cs
  /-- Whether a text or list can be repeated up to so many characters or items. -/
  builds : Value → Nat → Bool
  builds_zero : ∀ v, builds v 0 = true
  builds_of_le : ∀ {v m n}, m ≤ n → builds v n = true → builds v m = true

namespace Host

variable [Host]

/-- What comes of a call that is made with `room` frames free: `run` goes on with those that the
call leaves, and `full` is what comes of it where there are too few. -/
def inside {α : Type} (call : Call) (room : Nat) (full : α) (run : Nat → α) : α :=
  if frames call ≤ room then run (room - frames call) else full

section Inside

variable {α : Type} {call : Call} {room : Nat} {full : α} {run : Nat → α}

theorem inside_of_le (h : frames call ≤ room) :
    inside call room full run = run (room - frames call) :=
  if_pos h

theorem inside_of_lt (h : room < frames call) : inside call room full run = full :=
  if_neg (Nat.not_le.mpr h)

/-- What comes of a call and not of a full stack comes of what is done in the call. -/
theorem of_inside_eq {a : α} (h : inside call room full run = a) (hne : full ≠ a) :
    run (room - frames call) = a := by
  unfold inside at h
  split at h
  · exact h
  · exact absurd h hne

/-- A call that fits takes its frames from those that are free; one that does not fit is
not made. -/
theorem inside_cases (call : Call) (room : Nat) (full : α) (run : Nat → α) :
    (∃ left, left + frames call = room ∧ inside call room full run = run left) ∨
      room < frames call ∧ inside call room full run = full := by
  by_cases h : frames call ≤ room
  · exact .inl ⟨_, Nat.sub_add_cancel h, inside_of_le h⟩
  · exact .inr ⟨Nat.not_le.mp h, inside_of_lt (Nat.not_le.mp h)⟩

end Inside

/-- The frames of a call are few. -/
theorem frames_le (call : Call) : frames call ≤ stack / 102 :=
  (Nat.le_div_iff_mul_le (by decide)).mpr (Nat.mul_comm 102 _ ▸ hundred call)

theorem frames_le_stack (call : Call) : frames call ≤ stack :=
  Nat.le_trans (frames_le call) (Nat.div_le_self _ _)

/-! ### Calls that fit -/

/-- In `room` frames there is room for `n` calls inside one another, whichever they are. -/
def RoomFor (n room : Nat) : Prop := n * (stack / 102) ≤ room

/-- What `Host.hundred` says, for calls of all sorts together. -/
theorem roomFor_stack {n : Nat} (h : n ≤ 102) : RoomFor n stack :=
  Nat.le_trans (Nat.mul_le_mul_right _ h) (Nat.mul_div_le stack 102)

section RoomFor

variable {α : Type} {m n room : Nat} {call : Call} {full : α} {run : Nat → α}

theorem RoomFor.mono (h : RoomFor n room) (hle : m ≤ n) : RoomFor m room :=
  Nat.le_trans (Nat.mul_le_mul_right _ hle) h

theorem RoomFor.frames_le (h : RoomFor (n + 1) room) (call : Call) :
    stack / 102 * n + frames call ≤ room := by
  have hcall := Host.frames_le call
  rw [RoomFor, Nat.add_one_mul, Nat.mul_comm n] at h
  omega

/-- One of the calls is made. -/
theorem RoomFor.inside (h : RoomFor (n + 1) room) :
    Host.inside call room full run = run (room - frames call) :=
  inside_of_le (by have := h.frames_le call; omega)

/-- In it there is room for the others. -/
theorem RoomFor.left (h : RoomFor (n + 1) room) (call : Call) :
    RoomFor n (room - frames call) := by
  have hcall := h.frames_le call
  rw [RoomFor, Nat.mul_comm]
  omega

end RoomFor

end Host

/-! ## A host -/

/-- How many levels of forms the standard host reads in a text without blanks between its tokens.
Where there are blanks, the frame that is taken to skip them costs the innermost level. -/
def nestingLimit : Nat := 494

/-- The frames of a call on the standard host. -/
def standardFrames : Call → Nat
  | .evaluate .expr => 2
  | .evaluate _ => 3
  | .arguments | .condition => 1
  | .special .list => 4
  | .special _ => 1
  | .native _ => 4
  | .apply .. => 6
  | .quote _ => 4
  | .equal .. => 4
  | .text .. => 4
  | .source _ => 3

/-- A host with a thousand frames that builds texts and lists of up to 2^32 characters or items. The
program runs on it, and so do fixed inputs where no other host is given. -/
instance (priority := low) Host.standard : Host where
  stack := 1000
  frames := standardFrames
  hundred call := by
    unfold standardFrames
    split <;> decide
  levels cs := if (Text.trimBlanks cs).any Text.isBlank then nestingLimit - 1 else nestingLimit
  hundred_levels cs := by
    split <;> decide
  builds _ n := n ≤ 4294967296
  builds_zero _ := rfl
  builds_of_le hle hn := by
    simp only [decide_eq_true_eq] at hn ⊢
    exact Nat.le_trans hle hn

end MiniLisp
