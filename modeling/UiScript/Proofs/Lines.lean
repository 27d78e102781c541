/-
Where lines begin. The table of a source holds the offsets behind its line
breaks, in order, so the line of an offset is found by counting those that
are not past it. For an offset between characters this is exact: the line is
told by the line breaks before it, and the column by the characters behind
the last one of these.

# Main statements

* `startsFrom_append`: the lines that begin in two texts in a row.
* `line_boundary`, `start_boundary`: the line of such an offset, and where
  that line starts.
* `position_boundary`: its line and its column.
-/
import UiScript.Diagnostic.Lines
import UiScript.Proofs.Scanning.Tiling

namespace UiScript

open Text

namespace Text

/-- What stands behind the last line break of a text. -/
def lastLine (cs : List Char) : List Char := (cs.reverse.takeWhile fun c => c != '\n').reverse

/-- Before the last line there is nothing, or a line break. -/
theorem exists_append_lastLine (cs : List Char) :
    ∃ before, cs = before ++ lastLine cs ∧ (before = [] ∨ ∃ more, before = more ++ ['\n']) := by
  have hsplit := List.takeWhile_append_dropWhile (p := fun c => c != '\n') (l := cs.reverse)
  refine ⟨(cs.reverse.dropWhile fun c => c != '\n').reverse, ?_, ?_⟩
  · rw [lastLine, ← List.reverse_append, hsplit, List.reverse_reverse]
  · cases hdrop : cs.reverse.dropWhile fun c => c != '\n' with
    | nil => exact .inl rfl
    | cons c rest =>
      have hhead := List.head?_dropWhile_not (fun c => c != '\n') cs.reverse
      rw [hdrop] at hhead
      obtain rfl : c = '\n' := by simpa using hhead
      exact .inr ⟨rest.reverse, List.reverse_cons⟩

theorem not_mem_lastLine (cs : List Char) : '\n' ∉ lastLine cs := by
  intro h
  have hbreak := List.all_eq_true.1 List.all_takeWhile '\n' (List.mem_reverse.1 h)
  exact absurd hbreak (by decide)

/-- A text has no more characters than bytes. -/
theorem length_le_width (cs : List Char) : cs.length ≤ width cs := by
  induction cs with
  | nil => exact Nat.le_refl 0
  | cons c cs ih =>
    have := Char.utf8Size_pos c
    rw [List.length_cons, width_cons]
    omega

/-- A text has no more line breaks than bytes. -/
theorem count_le_width (cs : List Char) : cs.count '\n' ≤ width cs :=
  Nat.le_trans List.count_le_length (length_le_width cs)

theorem width_lastLine_le (cs : List Char) : width (lastLine cs) ≤ width cs := by
  obtain ⟨passed, hpassed, -⟩ := exists_append_lastLine cs
  have hwidth := congrArg width hpassed
  rw [width_append] at hwidth
  omega

/-- The last line of a text has no more characters than the text has bytes. -/
theorem length_lastLine_le (cs : List Char) : (lastLine cs).length ≤ width cs :=
  Nat.le_trans (length_le_width (lastLine cs)) (width_lastLine_le cs)

end Text

namespace LineTable

-- ==================================================================== starts

/-- Where the lines start that begin in a text, which itself starts at the
byte `position`. -/
def startsFrom (position : Nat) : List Char → List Nat
  | [] => []
  | c :: cs =>
    let next := position + c.utf8Size
    if c = '\n' then min next Span.maxOffset :: startsFrom next cs else startsFrom next cs

theorem startsFrom_cons (position : Nat) (c : Char) (cs : List Char) :
    startsFrom position (c :: cs)
      = (if c = '\n' then [min (position + c.utf8Size) Span.maxOffset] else [])
        ++ startsFrom (position + c.utf8Size) cs := by
  rw [startsFrom]
  by_cases hc : c = '\n'
  · rw [if_pos hc, if_pos hc]
    rfl
  · rw [if_neg hc, if_neg hc]
    rfl

theorem foldl_step_eq (position : Nat) (starts : List Nat) (cs : List Char) :
    cs.foldl step (position, starts)
      = (position + width cs, (startsFrom position cs).reverse ++ starts) := by
  induction cs generalizing position starts with
  | nil => rfl
  | cons c cs ih =>
    rw [List.foldl_cons, step, ih, width_cons, Nat.add_assoc, startsFrom_cons]
    by_cases hc : c = '\n'
    · simp [hc]
    · simp [hc]

/-- The first line starts where the source does. -/
theorem starts_ofSource (cs : List Char) : (ofSource cs).starts = 0 :: startsFrom 0 cs := by
  unfold ofSource
  rw [foldl_step_eq]
  simp

/-- The lines that begin in two texts in a row. The lines of the second text
are told from where the first one ends. -/
theorem startsFrom_append (position : Nat) (before after : List Char) :
    startsFrom position (before ++ after)
      = startsFrom position before ++ startsFrom (position + width before) after := by
  induction before generalizing position with
  | nil => rfl
  | cons c before ih =>
    rw [List.cons_append, startsFrom_cons, startsFrom_cons, ih, width_cons, Nat.add_assoc,
      List.append_assoc]

/-- A line begins behind each line break. -/
theorem length_startsFrom (position : Nat) (cs : List Char) :
    (startsFrom position cs).length = cs.count '\n' := by
  induction cs generalizing position with
  | nil => rfl
  | cons c cs ih =>
    rw [startsFrom_cons, List.length_append, ih]
    by_cases hc : c = '\n'
    · rw [if_pos hc, hc, List.count_cons_self, List.length_singleton, Nat.add_comm]
    · rw [if_neg hc, List.count_cons_of_ne hc, List.length_nil, Nat.zero_add]

/-- A line that begins in a text starts in it or at its end, and not where the
text starts. -/
theorem bounds_of_mem_startsFrom {position n : Nat} {cs : List Char}
    (hlimit : position + width cs ≤ Span.maxOffset) (h : n ∈ startsFrom position cs) :
    position < n ∧ n ≤ position + width cs := by
  induction cs generalizing position with
  | nil => cases h
  | cons c cs ih =>
    have hc := Char.utf8Size_pos c
    rw [width_cons] at hlimit ⊢
    rw [startsFrom_cons] at h
    rcases List.mem_append.1 h with h | h
    · by_cases hbreak : c = '\n'
      · rw [if_pos hbreak, List.mem_singleton] at h
        omega
      · rw [if_neg hbreak] at h
        cases h
    · have := ih (by omega) h
      omega

theorem pairwise_startsFrom {position : Nat} {cs : List Char}
    (hlimit : position + width cs ≤ Span.maxOffset) :
    (startsFrom position cs).Pairwise (· < ·) := by
  induction cs generalizing position with
  | nil => exact .nil
  | cons c cs ih =>
    rw [width_cons] at hlimit
    have hrest : (startsFrom (position + c.utf8Size) cs).Pairwise (· < ·) := ih (by omega)
    rw [startsFrom_cons]
    refine List.pairwise_append.2 ⟨?_, hrest, ?_⟩
    · split
      · exact List.pairwise_singleton _ _
      · exact .nil
    · intro start hstart later hlater
      have := (bounds_of_mem_startsFrom (by omega) hlater).1
      by_cases hbreak : c = '\n'
      · rw [if_pos hbreak, List.mem_singleton] at hstart
        omega
      · rw [if_neg hbreak] at hstart
        cases hstart

-- ==================================================================== places

/-- In a table that is in order, the line of an offset is told by the lines
that do not start past it. -/
theorem line_eq_countP {table : LineTable} (hsorted : table.starts.Pairwise (· < ·))
    (offset : Nat) : table.line offset = fromOne (table.starts.countP (· ≤ offset) - 1) := by
  have hreach : Halving.reach table.starts offset = table.starts.countP (· ≤ offset) := by
    refine List.countP_congr fun start _ => ?_
    simp
  unfold line
  rw [← hreach]
  rcases Halving.search_spec (x := offset) hsorted with ⟨i, hfound, -, hi⟩ | ⟨hmissed, -⟩
  · rw [hfound, hi]
    rfl
  · rw [hmissed]

/-- The lines that begin up to an offset, behind the first one, are counted to
tell its line. -/
theorem line_ofSource {cs : List Char} (h : width cs ≤ Span.maxOffset) (offset : Nat) :
    (ofSource cs).line offset = fromOne ((startsFrom 0 cs).countP (· ≤ offset)) := by
  have hsorted : (ofSource cs).starts.Pairwise (· < ·) := by
    rw [starts_ofSource, List.pairwise_cons]
    refine ⟨fun start hstart => ?_, pairwise_startsFrom (by omega)⟩
    exact (bounds_of_mem_startsFrom (by omega) hstart).1
  rw [line_eq_countP hsorted, starts_ofSource, List.countP_cons,
    if_pos (decide_eq_true (Nat.zero_le offset)), Nat.add_sub_cancel]

section

variable {before after : List Char} (h : width (before ++ after) ≤ Span.maxOffset)
include h

/-- Of the lines that begin in a source, those that begin before an offset are
not past it. They are as many as there are line breaks, counted in 32 bits as
the table counts them. -/
theorem line_boundary :
    (ofSource (before ++ after)).line (width before) = fromOne (before.count '\n') := by
  rw [line_ofSource h]
  rw [width_append] at h
  have hbefore : (startsFrom 0 before).countP (· ≤ width before) = before.count '\n' := by
    rw [← length_startsFrom 0 before, List.countP_eq_length]
    intro n hn
    have := (bounds_of_mem_startsFrom (by omega) hn).2
    exact decide_eq_true (by omega)
  have hafter : (startsFrom (width before) after).countP (· ≤ width before) = 0 := by
    rw [List.countP_eq_zero]
    intro n hn hle
    have := (bounds_of_mem_startsFrom h hn).1
    have := of_decide_eq_true hle
    omega
  rw [startsFrom_append, Nat.zero_add, List.countP_append, hbefore, hafter, Nat.add_zero]

/-- A line starts behind the last line break before it. Counted back from its
number, the line is found again in the table. -/
theorem start_boundary {passed : List Char} (hpassed : before = passed ++ lastLine before)
    (hbreak : passed = [] ∨ ∃ more, passed = more ++ ['\n']) :
    (ofSource (before ++ after)).starts[before.count '\n']? = some (width passed) := by
  have hcount : before.count '\n' = passed.count '\n' := by
    rw [hpassed, List.count_append, List.count_eq_zero_of_not_mem (not_mem_lastLine before),
      Nat.add_zero]
  rw [hcount, starts_ofSource]
  obtain rfl | ⟨more, rfl⟩ := hbreak
  · rfl
  · have hstart : startsFrom (width more) ['\n'] = [width (more ++ ['\n'])] := by
      have hone : width ['\n'] = 1 := rfl
      rw [hpassed, width_append, width_append, width_append, hone] at h
      rw [width_append, hone]
      show [min (width more + 1) Span.maxOffset] = [width more + 1]
      rw [Nat.min_eq_left (by omega)]
    rw [hpassed, List.append_assoc, startsFrom_append, startsFrom_append, Nat.zero_add, hstart,
      List.count_append, List.append_assoc, List.count_singleton_self, List.getElem?_cons_succ,
      ← length_startsFrom 0 more, List.getElem?_append_right (Nat.le_refl _), Nat.sub_self]
    rfl

/-- The line of an offset between characters is told by the line breaks before
it, and its column by the characters behind the last of these, both counted
from one. -/
theorem position_boundary :
    (ofSource (before ++ after)).position (before ++ after) (width before)
      = (fromOne (before.count '\n'), fromOne (lastLine before).length) := by
  obtain ⟨passed, hpassed, hbreak⟩ := exists_append_lastLine before
  have hbefore : width before ≤ Span.maxOffset := by
    rw [width_append] at h
    omega
  have hwidth : width before = width passed + width (lastLine before) := by
    rw [← width_append, ← hpassed]
  have hslice : slice? (width passed) (width before) (before ++ after)
      = some (lastLine before) := by
    have hmid := slice?_width_append passed (lastLine before) after
    rwa [← List.append_assoc, ← hpassed, ← hwidth] at hmid
  have hstop : max (min (width before) (width (before ++ after))) (width passed)
      = width before := by
    rw [width_append]
    omega
  unfold position
  dsimp only
  rw [line_boundary h, indexOf_fromOne (Nat.le_trans (count_le_width before) hbefore),
    start_boundary h hpassed hbreak, Option.getD_some, hstop, hslice]

end

end LineTable

end UiScript
