/-
Lines and columns. A newline ends a line; lines and columns count from one,
and columns count characters. An offset past the end stands where the end
stands. An offset inside a character has no text before it on its line, so
it stands in the first column.

Lines and columns are held in 32 bits, as offsets are. In a source that is
as long as offsets allow, the last offset there is can be the index of a line
or of a column, and for it the count from one is back at zero.

# Main statements

* `fromOne_of_lt`, `indexOf_fromOne` — counting from one, and back.
* `lineCount_eq` — there is one line more than there are newlines.
-/
import UiScript.Diagnostic.Basic
import UiScript.Halving
import UiScript.Text.Bytes

namespace UiScript

open Text

/-- The byte offsets at which the lines of a source start, in order. -/
structure LineTable where
  starts : List Nat
deriving DecidableEq

namespace LineTable

-- ============================================================== the table

/-- One step over a character: the position after it, and the line starts so
far, in reverse. -/
def step (state : Nat × List Nat) (c : Char) : Nat × List Nat :=
  let next := state.1 + c.utf8Size
  (next, if c = '\n' then min next Span.maxOffset :: state.2 else state.2)

/-- The line starts of a source; offsets past the limit stay at the limit. -/
def ofSource (source : List Char) : LineTable := ⟨(source.foldl step (0, [0])).2.reverse⟩

/-- How many lines there are. -/
def lineCount (table : LineTable) : Nat := table.starts.length

-- ============================================================== counting

/-- An index counted from one, in 32 bits. An index that does not fit is taken
for the last but one that does; behind the last one that fits, the count
begins again at zero. -/
def fromOne (index : Nat) : Nat :=
  ((if index ≤ Span.maxOffset then index else Span.maxOffset - 1) + 1) % (Span.maxOffset + 1)

/-- The index that is counted as `count`, in 32 bits. -/
def indexOf (count : Nat) : Nat := (count + Span.maxOffset) % (Span.maxOffset + 1)

-- ================================================================ lookup

/-- The line on which an offset stands: one that starts at it, or else the
last one that starts before it. -/
def line (table : LineTable) (offset : Nat) : Nat :=
  fromOne (match Halving.search table.starts offset with
    | .ok place => place
    | .error place => place - 1)

/-- The line and the column at which an offset stands. -/
def position (table : LineTable) (source : List Char) (offset : Nat) : Nat × Nat :=
  let line := table.line offset
  let start := (table.starts[indexOf line]?).getD 0
  let stop := max (min offset (width source)) start
  let column := match slice? start stop source with
    | some chars => chars.length
    | none => 0
  (line, fromOne column)

-- =============================================================== its laws

/-- An index before the last one that fits is counted as one more. This is the
case of every source that is shorter than offsets allow. -/
theorem fromOne_of_lt {index : Nat} (h : index < Span.maxOffset) : fromOne index = index + 1 := by
  rw [fromOne, if_pos (Nat.le_of_lt h), Nat.mod_eq_of_lt (Nat.succ_lt_succ h)]

/-- The last index that fits is counted as zero. -/
theorem fromOne_maxOffset : fromOne Span.maxOffset = 0 := by
  rw [fromOne, if_pos (Nat.le_refl _), Nat.mod_self]

/-- An index that fits is told by its count, also when the count begins again.
So a line is found again by its number, which is how the column finds the
start of its line. -/
theorem indexOf_fromOne {index : Nat} (h : index ≤ Span.maxOffset) :
    indexOf (fromOne index) = index := by
  rw [fromOne, if_pos h, indexOf, Nat.mod_add_mod, Nat.add_assoc, Nat.add_comm 1, Nat.add_mod_right,
    Nat.mod_eq_of_lt (Nat.lt_succ_of_le h)]

theorem foldl_step_length (source : List Char) (state : Nat × List Nat) :
    (source.foldl step state).2.length = state.2.length + source.count '\n' := by
  induction source generalizing state with
  | nil => rfl
  | cons c cs ih =>
    rw [List.foldl_cons, ih, List.count_cons]
    by_cases h : c = '\n'
    · simp [step, h]
      omega
    · simp [step, h]

/-- There is one line more than there are newlines. Both ends of a source
count, so a source without any has one line. -/
theorem lineCount_eq (source : List Char) :
    (ofSource source).lineCount = source.count '\n' + 1 := by
  simp only [lineCount, ofSource, List.length_reverse, foldl_step_length, List.length_singleton]
  omega

end LineTable

namespace Diagnostic

/-- The diagnostic on one line behind its path and, if it has one, its place. -/
def summary (d : Diagnostic) (path : String) (source : String) : String :=
  match d.primarySpan? with
  | some span =>
    let (line, column) := (LineTable.ofSource source.toList).position source.toList span.start
    s!"{path}:{line}:{column}: {d.text}"
  | none => s!"{path}: {d.text}"

end Diagnostic

end UiScript
