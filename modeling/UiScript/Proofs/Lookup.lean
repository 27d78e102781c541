/-
Lines and columns as they are looked up, told from the source alone: of an
offset between characters, the line is told by the newline bytes before it and
the column by the characters behind the last of these. A text that goes on
has more newlines, or it has as many and more characters behind the last one;
so offsets are told apart by their lines and columns, and these come in the
same order.

# Main statements

* `lastLine_append`: more of the same line.
* `lex_placeBehind`: the place behind a longer text comes later.
* `position_of_width_le`: past the end there is but one place.
* `position_exact`: lines and columns of a whole source.
-/
import UiScript.Proofs.Lines
import UiScript.Proofs.Text.Octets

namespace UiScript

open Text

namespace Text

/-- What is on the same line goes on with it. Only a line break starts a line. -/
theorem lastLine_append {before more : List Char} (h : '\n' ∉ more) :
    lastLine (before ++ more) = lastLine before ++ more := by
  have hmore : ∀ c ∈ more.reverse, (c != '\n') = true := by
    intro c hc
    exact bne_iff_ne.2 fun hbreak => h (hbreak ▸ List.mem_reverse.1 hc)
  rw [lastLine, List.reverse_append, List.takeWhile_append_of_pos hmore, List.reverse_append,
    List.reverse_reverse, ← lastLine]

/-- The line and the column behind a text. -/
def placeBehind (before : List Char) : Nat × Nat :=
  ((bytes before).count 0x0a + 1, (lastLine before).length + 1)

theorem count_newline (cs : List Char) : (bytes cs).count 0x0a = cs.count '\n' :=
  count_bytes (a := '\n') rfl cs

/-- The place behind a longer text is on a later line, or on the same one and
further on. So places come in the order of the text, and no two boundaries
share one. -/
theorem lex_placeBehind (before : List Char) {more : List Char} (h : more ≠ []) :
    Prod.Lex (· < ·) (· < ·) (placeBehind before) (placeBehind (before ++ more)) := by
  unfold placeBehind
  rw [count_newline, count_newline, List.count_append]
  by_cases hbreak : '\n' ∈ more
  · have := List.count_pos_iff.2 hbreak
    exact .left _ _ (by omega)
  · have := List.length_pos_iff.2 h
    rw [List.count_eq_zero.2 hbreak, lastLine_append hbreak, List.length_append]
    exact .right _ (by omega)

end Text

namespace LineTable

section

variable {source : List Char} (h : width source < Span.maxOffset)
include h

/-- In a source that is not as long as offsets allow, the count of lines does
not begin again. -/
theorem line_of_lt (offset : Nat) :
    (ofSource source).line offset = (startsFrom 0 source).countP (· ≤ offset) + 1 := by
  have hcount := List.countP_le_length (p := (· ≤ offset)) (l := startsFrom 0 source)
  rw [length_startsFrom] at hcount
  have := count_le_width source
  rw [line_ofSource (Nat.le_of_lt h), fromOne_of_lt (by omega)]

/-- Nor does the count of columns. -/
theorem position_width {before after : List Char} (hsource : source = before ++ after) :
    (ofSource source).position source (width before) = placeBehind before := by
  subst hsource
  have hcount := count_le_width before
  have hlast := length_lastLine_le before
  rw [position_boundary (Nat.le_of_lt h), placeBehind, count_newline]
  rw [width_append] at h
  rw [fromOne_of_lt (by omega), fromOne_of_lt (by omega)]

/-- An offset further on is at a later place. -/
theorem lex_position {o o' : Nat} (ho : IsBoundary source o) (ho' : IsBoundary source o')
    (hless : o < o') : Prod.Lex (· < ·) (· < ·) ((ofSource source).position source o)
      ((ofSource source).position source o') := by
  obtain ⟨before, after, hsource, rfl⟩ := ho
  obtain ⟨before', after', hsource', rfl⟩ := ho'
  rw [position_width h hsource, position_width h hsource']
  rcases List.append_eq_append_iff.1 (hsource.symm.trans hsource') with
    ⟨more, rfl, -⟩ | ⟨more, rfl, -⟩
  · refine lex_placeBehind before ?_
    rintro rfl
    rw [List.append_nil] at hless
    exact Nat.lt_irrefl _ hless
  · rw [width_append] at hless
    omega

/-- Offsets between characters come in the order of their places. -/
theorem position_lt_iff {o o' : Nat} (ho : IsBoundary source o) (ho' : IsBoundary source o') :
    o < o' ↔ Prod.Lex (· < ·) (· < ·) ((ofSource source).position source o)
      ((ofSource source).position source o') := by
  refine ⟨lex_position h ho ho', fun hlex => ?_⟩
  have hback := lex_position h ho' ho
  rw [Prod.lex_def] at hlex hback
  rcases Nat.lt_trichotomy o o' with hless | rfl | hless
  · exact hless
  · omega
  · have := hback hless
    omega

/-- Offsets between characters are told apart by their places. -/
theorem position_ne {o o' : Nat} (ho : IsBoundary source o) (ho' : IsBoundary source o')
    (hne : o ≠ o') :
    (ofSource source).position source o ≠ (ofSource source).position source o' := by
  intro heq
  have hnot : ¬ (o < o' ∨ o' < o) := by
    rw [position_lt_iff h ho ho', position_lt_iff h ho' ho, heq, or_self, Prod.lex_def]
    omega
  omega

/-- Past the end there is but the place of the end. The offset is held at the
end before the column is counted. -/
theorem position_of_width_le {offset : Nat} (hoffset : width source ≤ offset) :
    (ofSource source).position source offset
      = (ofSource source).position source (width source) := by
  have hall : ∀ o, width source ≤ o →
      (startsFrom 0 source).countP (· ≤ o) = (startsFrom 0 source).length := by
    intro o ho
    rw [List.countP_eq_length]
    intro start hstart
    have := (bounds_of_mem_startsFrom (by omega) hstart).2
    exact decide_eq_true (by omega)
  have hline : (ofSource source).line offset = (ofSource source).line (width source) := by
    rw [line_of_lt h, line_of_lt h, hall _ hoffset, hall _ (Nat.le_refl _)]
  unfold position
  rw [hline, Nat.min_eq_right hoffset, Nat.min_self]

/-- There is one line more than there are newline bytes. An offset between
characters is on the line that is one more than the newline bytes before it,
in the column that is one more than the characters behind the last of these;
so such offsets are told apart by line and column, and come in their order.
Offsets past the end are where the end is. -/
theorem position_exact :
    let table := ofSource source
    table.lineCount = (bytes source).count 0x0a + 1
      ∧ (∀ before after, source = before ++ after →
        table.position source (width before)
          = ((bytes before).count 0x0a + 1, (lastLine before).length + 1))
      ∧ (∀ o o', IsBoundary source o → IsBoundary source o' →
        (o ≠ o' → table.position source o ≠ table.position source o')
          ∧ (o < o' ↔
            Prod.Lex (· < ·) (· < ·) (table.position source o) (table.position source o')))
      ∧ ∀ offset, width source < offset →
        table.position source offset = table.position source (width source) := by
  refine ⟨?_, fun before after => position_width h,
    fun o o' ho ho' => ⟨position_ne h ho ho', position_lt_iff h ho ho'⟩,
    fun offset hoffset => position_of_width_le h (Nat.le_of_lt hoffset)⟩
  rw [count_newline]
  exact lineCount_eq source

end

/-- Three lines, the second one of which is empty; the last one has a letter
of two bytes in it. -/
def threeLines : List Char := "a\n\nué!".toList

/-- The letter is at the end of four bytes and in the second column, and what
follows it in the third one; an offset past the end is where the end is. -/
theorem position_exact_threeLines :
    width threeLines < Span.maxOffset ∧ (ofSource threeLines).lineCount = 3
      ∧ (ofSource threeLines).position threeLines 4 = (3, 2)
      ∧ (ofSource threeLines).position threeLines 6 = (3, 3)
      ∧ (ofSource threeLines).position threeLines 99
        = (ofSource threeLines).position threeLines 7 := by
  have hwidth : width threeLines < Span.maxOffset := by decide
  obtain ⟨hcount, hplace, -, hend⟩ := position_exact hwidth
  refine ⟨hwidth, hcount.trans (by decide), ?_, ?_, hend 99 (by decide)⟩
  · exact (hplace "a\n\nu".toList "é!".toList rfl).trans (by decide)
  · exact (hplace "a\n\nué".toList "!".toList rfl).trans (by decide)

end LineTable

end UiScript
