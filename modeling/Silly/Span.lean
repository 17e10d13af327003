/-!
# Spans

Where a token stands in its source: the byte offsets of its start and of its end. An offset is
kept in 32 bits. One that does not fit stays at the largest offset that does.
-/

namespace Silly

/-- A half-open range of byte offsets. -/
structure Span where
  start : Nat
  stop : Nat
  deriving DecidableEq

namespace Span

/-- The largest offset that a span can hold. -/
def maxOffset : Nat := UInt32.size - 1

/-- **The span of a range of offsets.** Each end is cut down to the largest offset. -/
def ofOffsets (start stop : Nat) : Span := ⟨min start maxOffset, min stop maxOffset⟩

/-- The span that stands for no place. -/
def dummy : Span := ⟨0, 0⟩

/-- How many bytes the span covers: none if its end comes first. -/
def length (s : Span) : Nat := s.stop - s.start

def isEmpty (s : Span) : Bool := s.stop ≤ s.start

/-- The span as messages show it. -/
def text (s : Span) : String := toString s.start ++ ".." ++ toString s.stop

theorem ofOffsets_of_le {start stop : Nat} (h : start ≤ stop) (h' : stop ≤ maxOffset) :
    ofOffsets start stop = ⟨start, stop⟩ := by
  simp [ofOffsets, Nat.min_eq_left h', Nat.min_eq_left (Nat.le_trans h h')]

end Span

end Silly
