/-!
# Spans

A span is a half-open range of byte offsets into a source.  Offsets are kept in
32 bits; a larger offset is recorded as the largest one.
-/

namespace ScopeLisp

/-- The bytes from `start` up to, and not including, `stop`. -/
structure Span where
  start : Nat
  stop : Nat
deriving DecidableEq, Inhabited

namespace Span

def maxOffset : Nat := 0xFFFFFFFF

/-- The span between two offsets, each lowered to the largest one where it is beyond it. -/
def ofRange (start stop : Nat) : Span :=
  ⟨min start maxOffset, min stop maxOffset⟩

def origin : Span := ⟨0, 0⟩

def toText (s : Span) : String :=
  s.start.repr ++ ".." ++ s.stop.repr

theorem ofRange_of_le {start stop : Nat}
    (hstart : start ≤ maxOffset) (hstop : stop ≤ maxOffset) :
    ofRange start stop = ⟨start, stop⟩ := by
  simp [ofRange, Nat.min_eq_left hstart, Nat.min_eq_left hstop]

end Span
end ScopeLisp
