import MiniLisp.Fault
import MiniLisp.Text.Slice

/-!
# Spans

A span is a half-open range of offsets into a text. Offsets may be negative: they then count
from the end of the text that is sliced.
-/

namespace MiniLisp

/-- The offsets from `start` up to, but not including, `stop`. -/
structure Span where
  start : Int
  stop : Int
  start_le_stop : start ≤ stop := by omega
deriving DecidableEq, Repr

namespace Span

/-- The span between two offsets, which must be in order. -/
def between (start stop : Int) : Except Fault Span :=
  if h : start ≤ stop then .ok ⟨start, stop, h⟩ else .error (.invalidSpan start stop)

/-- The span of `length` offsets from `start` on. -/
def covering (start length : Nat) : Span := ⟨start, start + length, by omega⟩

/-- How many offsets the span holds. -/
def length (s : Span) : Nat := (s.stop - s.start).toNat

/-- The span with another start. -/
def withStart (s : Span) (start : Int) : Except Fault Span := between start s.stop

/-- The span moved to the right. -/
def shift (s : Span) (by' : Int) : Span :=
  ⟨s.start + by', s.stop + by', Int.add_le_add_right s.start_le_stop by'⟩

/-- The part of a text that lies in the span. -/
def slice (s : Span) (cs : List Char) : List Char := Text.slice cs s.start s.stop

@[simp] theorem covering_start (start length : Nat) : (covering start length).start = start := rfl

@[simp] theorem covering_stop (start length : Nat) :
    (covering start length).stop = start + length := rfl

end Span

end MiniLisp
