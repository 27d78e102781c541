/-
Places in a text. An offset counts bytes, so it may fall inside a character;
a span that fits a text starts and stops between characters, and does not
stop before it starts.

# Main statements

* `Span.Fits.piece`: a piece of a text has a span that fits.
* `Span.Fits.prepend`, `Span.Fits.append`: more text in front or behind.
* `Span.Fits.cover`: from the start of one span to the end of another.
* `Span.Fits.saturate_eq`: within the limit of offsets.
-/
import UiScript.Span
import UiScript.Text.Bytes

namespace UiScript

namespace Text

/-- Whether an offset falls between characters. -/
def IsBoundary (cs : List Char) (offset : Nat) : Prop :=
  ∃ before after, cs = before ++ after ∧ width before = offset

namespace IsBoundary

variable {cs : List Char} {offset : Nat}

theorem le_width (h : IsBoundary cs offset) : offset ≤ width cs := by
  obtain ⟨before, after, rfl, rfl⟩ := h
  rw [width_append]
  exact Nat.le_add_right ..

theorem prepend (h : IsBoundary cs offset) (more : List Char) :
    IsBoundary (more ++ cs) (width more + offset) := by
  obtain ⟨before, after, rfl, rfl⟩ := h
  exact ⟨more ++ before, after, (List.append_assoc ..).symm, width_append ..⟩

theorem append (h : IsBoundary cs offset) (more : List Char) : IsBoundary (cs ++ more) offset := by
  obtain ⟨before, after, rfl, rfl⟩ := h
  exact ⟨before, after ++ more, List.append_assoc .., rfl⟩

end IsBoundary

end Text

namespace Span

open Text

/-- A span starts and stops between characters of a text, in this order. -/
structure Fits (s : Span) (cs : List Char) : Prop where
  ordered : s.start ≤ s.stop
  start : IsBoundary cs s.start
  stop : IsBoundary cs s.stop

namespace Fits

variable {s t : Span} {cs : List Char}

/-- A piece of a text has a span that fits. -/
theorem piece (before mid after : List Char) :
    Fits ⟨width before, width before + width mid⟩ (before ++ (mid ++ after)) := by
  refine ⟨Nat.le_add_right .., ⟨before, mid ++ after, rfl, rfl⟩, before ++ mid, after, ?_, ?_⟩
  · exact (List.append_assoc ..).symm
  · exact width_append ..

/-- A whole text has a span that fits. -/
theorem whole (cs : List Char) : Fits ⟨0, width cs⟩ cs := by
  have hpiece := piece [] cs []
  rwa [width_nil, Nat.zero_add, List.append_nil] at hpiece

theorem prepend (h : s.Fits cs) (more : List Char) : (s.shift (width more)).Fits (more ++ cs) :=
  ⟨Nat.add_le_add_left h.ordered _, h.start.prepend more, h.stop.prepend more⟩

theorem append (h : s.Fits cs) (more : List Char) : s.Fits (cs ++ more) :=
  ⟨h.ordered, h.start.append more, h.stop.append more⟩

/-- From the start of one span to the end of another. -/
theorem cover (hs : s.Fits cs) (ht : t.Fits cs) (hst : s.start ≤ t.stop) :
    Fits ⟨s.start, t.stop⟩ cs :=
  ⟨hst, hs.start, ht.stop⟩

/-- What fits a text that is within the limit of offsets is not held at the
limit. -/
theorem saturate_eq (h : s.Fits cs) (hwidth : width cs ≤ maxOffset) : s.saturate = s :=
  saturate_eq_self (Nat.le_trans h.start.le_width hwidth) (Nat.le_trans h.stop.le_width hwidth)

end Fits

end Span

end UiScript
