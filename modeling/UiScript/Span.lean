/-
Byte ranges of a source text, half open: `start` belongs to the range and
`stop` does not. Offsets are held in 32 bits by everything that stores a
span, so `maxOffset` is the largest offset there is; a range past it is
refused (`ofRange`), and an offset that a scan runs past stays at the limit
(`saturate`).

# Main statements

* `saturate_eq_self` — spans within the limit are kept as they are.
-/

namespace UiScript

/-- A half-open byte range of a source text. -/
structure Span where
  /-- The first byte of the range. -/
  start : Nat
  /-- The first byte past the range. -/
  stop : Nat
deriving DecidableEq, Inhabited

namespace Span

-- ======================================================== making spans

/-- The largest offset that a span can hold. -/
def maxOffset : Nat := 4294967295

/-- The span of what stands nowhere in the source. -/
def nowhere : Span := ⟨0, 0⟩

/-- The empty span at an offset. -/
def point (offset : Nat) : Span := ⟨offset, offset⟩

/-- Why a range of offsets is no span. -/
inductive RangeError where
  | startTooLarge (offset : Nat)
  | stopTooLarge (offset : Nat)
deriving DecidableEq

/-- The text of a range error. -/
def RangeError.message : RangeError → String
  | .startTooLarge offset => s!"span start {offset} exceeds u32::MAX ({maxOffset})"
  | .stopTooLarge offset => s!"span end {offset} exceeds u32::MAX ({maxOffset})"

/-- The span of a range of offsets, if both fit; the start is looked at first. -/
def ofRange (start stop : Nat) : Except RangeError Span :=
  if maxOffset < start then .error (.startTooLarge start)
  else if maxOffset < stop then .error (.stopTooLarge stop)
  else .ok ⟨start, stop⟩

-- ===================================================== looking at spans

/-- How many bytes the range has. -/
def size (s : Span) : Nat := s.stop - s.start

/-- Whether the range ends where it starts. -/
def isEmpty (s : Span) : Bool := s.start == s.stop

/-- Whether an offset lies in the range. -/
def contains (s : Span) (offset : Nat) : Bool := s.start ≤ offset && offset < s.stop

/-- A span is written `start..stop`. -/
def text (s : Span) : String := s!"{s.start}..{s.stop}"

-- ==================================================== spans from spans

/-- The smallest span that covers both. -/
def merge (s t : Span) : Span := ⟨min s.start t.start, max s.stop t.stop⟩

/-- The same range, `distance` bytes further on. -/
def shift (distance : Nat) (s : Span) : Span := ⟨distance + s.start, distance + s.stop⟩

/-- Offsets past the limit stay at the limit. -/
def saturate (s : Span) : Span := ⟨min s.start maxOffset, min s.stop maxOffset⟩

/-- A span within the limit is kept as it is. All spans of a source that fits
into the offsets are. -/
theorem saturate_eq_self {s : Span} (hstart : s.start ≤ maxOffset) (hstop : s.stop ≤ maxOffset) :
    s.saturate = s := by
  simp [saturate, Nat.min_eq_left hstart, Nat.min_eq_left hstop]

end Span

end UiScript
