/-
Lines and columns of all offsets, also of those inside a character. Such an
offset is on the line of its character; but the text before it on the line
is not cut between characters, so it has no length, and the column is the
first one. A report that is drawn counts the whole characters before an
offset instead, and so rounds the offset down. Lookups therefore come in the
order of the offsets up to one exception: an offset inside a character comes
before the offsets between the characters in front of it on its line.

# Main statements

* `isBoundary_or_fallsInside`: where an offset within a text can be.
* `position_inside`: the place of an offset inside a character.
* `charsBefore_inside`: where a report that is drawn puts it.
* `position_le_iff`: the order of any two lookups.
* `position_not_monotone`: the exception.
-/
import UiScript.Proofs.Lookup

namespace UiScript

open Text

namespace Text

-- ==================================================================== offsets

/-- An offset falls inside a character of a text, which stands behind
`before`. -/
def FallsInside (cs : List Char) (offset : Nat) (before : List Char) : Prop :=
  ∃ c after, cs = before ++ c :: after ∧ width before < offset
    ∧ offset < width before + c.utf8Size

/-- An offset within a text falls between characters or inside one. The
induction takes off one character at a time. -/
theorem isBoundary_or_fallsInside {cs : List Char} {offset : Nat} (h : offset ≤ width cs) :
    IsBoundary cs offset ∨ ∃ before, FallsInside cs offset before := by
  induction cs generalizing offset with
  | nil => exact .inl ⟨[], [], rfl, (Nat.le_zero.1 h).symm⟩
  | cons c cs ih =>
    rw [width_cons] at h
    rcases Nat.eq_zero_or_pos offset with rfl | hpos
    · exact .inl ⟨[], c :: cs, rfl, rfl⟩
    rcases Nat.lt_or_ge offset c.utf8Size with hless | hge
    · refine .inr ⟨[], c, cs, rfl, hpos, ?_⟩
      rwa [width_nil, Nat.zero_add]
    have hrest : offset - c.utf8Size ≤ width cs := by omega
    rcases ih hrest with hboundary | ⟨before, d, after, rfl, hd⟩
    · have hfurther := hboundary.prepend [c]
      rw [width_cons, width_nil, Nat.add_zero, Nat.add_sub_cancel' hge] at hfurther
      exact .inl hfurther
    · refine .inr ⟨c :: before, d, after, rfl, ?_⟩
      rw [width_cons]
      omega

/-- What is up to an offset inside a character and falls between characters is
in front of that character. -/
theorem FallsInside.exists_append {cs before front behind : List Char} {offset : Nat}
    (h : FallsInside cs offset before) (hcs : cs = front ++ behind)
    (hle : width front ≤ offset) : ∃ more, before = front ++ more := by
  obtain ⟨c, after, rfl, -, hless⟩ := h
  rcases List.append_eq_append_iff.1 hcs with ⟨more, rfl, hmore⟩ | ⟨more, rfl, -⟩
  · cases more with
    | nil => exact ⟨[], by simp⟩
    | cons d more =>
      obtain ⟨rfl, -⟩ := List.cons.inj hmore
      rw [width_append, width_cons] at hle
      omega
  · exact ⟨more, rfl⟩

/-- Reading ends inside a character: no characters have as many bytes. -/
theorem split?_go_inside (taken cs ds : List Char) {c : Char} {n : Nat} (hpos : 0 < n)
    (hless : n < c.utf8Size) : split?.go (width cs + n) taken (cs ++ c :: ds) = none := by
  induction cs generalizing taken with
  | nil =>
    obtain ⟨m, rfl⟩ := Nat.exists_eq_succ_of_ne_zero (Nat.ne_of_gt hpos)
    rw [width_nil, Nat.zero_add, List.nil_append, split?.go, if_neg (by omega)]
  | cons d cs ih =>
    have hd := Char.utf8Size_pos d
    obtain ⟨m, hm⟩ : ∃ m, width (d :: cs) + n = m + 1 := ⟨width (d :: cs) + n - 1, by omega⟩
    have hrest : m + 1 - d.utf8Size = width cs + n := by
      rw [← hm, width_cons]
      omega
    rw [hm, List.cons_append, split?.go, if_pos (by rw [← hm, width_cons]; omega), hrest]
    exact ih (d :: taken)

/-- No slice stops inside a character. -/
theorem slice?_inside (passed line after : List Char) {c : Char} {offset : Nat}
    (hpos : width (passed ++ line) < offset)
    (hless : offset < width (passed ++ line) + c.utf8Size) :
    slice? (width passed) offset (passed ++ line ++ c :: after) = none := by
  rw [width_append] at hpos hless
  have hrest : offset - width passed = width line + (offset - width passed - width line) := by
    omega
  rw [slice?, List.append_assoc, drop?_width_append, Option.bind_some, take?, split?, hrest,
    split?_go_inside [] line after (by omega) (by omega)]
  rfl

theorem charsBefore_go_inside (count : Nat) (cs ds : List Char) {c : Char} {n : Nat}
    (hless : n < c.utf8Size) :
    charsBefore.go (width cs + n) count (cs ++ c :: ds) = count + cs.length := by
  induction cs generalizing count with
  | nil =>
    rw [width_nil, Nat.zero_add, List.nil_append, charsBefore.go, if_neg (Nat.not_le.2 hless)]
    rfl
  | cons d cs ih =>
    have hrest : width (d :: cs) + n - d.utf8Size = width cs + n := by
      rw [width_cons]
      omega
    rw [List.cons_append, charsBefore.go, if_pos (by rw [width_cons]; omega), hrest, ih,
      List.length_cons]
    omega

/-- Counted in whole characters, an offset inside a character is where the
character starts. This is how reports round an offset, and it is what the
column does not do. -/
theorem charsBefore_inside {cs before : List Char} {offset : Nat}
    (h : FallsInside cs offset before) : charsBefore offset cs = before.length := by
  obtain ⟨c, after, rfl, hpos, hless⟩ := h
  have hoffset : offset = width before + (offset - width before) := by omega
  rw [charsBefore, hoffset, charsBefore_go_inside 0 before after (by omega), Nat.zero_add]

-- ================================================================== last lines

/-- Behind a line break it does not matter what is in front of it. -/
theorem lastLine_append_of_mem {before more : List Char} (h : '\n' ∈ more) :
    lastLine (before ++ more) = lastLine more := by
  obtain ⟨passed, hmore, rfl | ⟨front, rfl⟩⟩ := exists_append_lastLine more
  · rw [hmore, List.nil_append] at h
    exact absurd h (not_mem_lastLine more)
  · have hbreak : lastLine (before ++ (front ++ ['\n'])) = [] := by
      rw [← List.append_assoc, lastLine, List.reverse_append]
      rfl
    conv => lhs; rw [hmore, ← List.append_assoc, lastLine_append (not_mem_lastLine more), hbreak]
    rfl

/-- The place behind a text is no later than the start of the line behind a
longer one exactly if the text ends no later than where that line starts. -/
theorem lex_placeBehind_start (before more : List Char) :
    Prod.Lex (· < ·) (· ≤ ·) (placeBehind before) ((placeBehind (before ++ more)).1, 1)
      ↔ width before ≤ width (before ++ more) - width (lastLine (before ++ more)) := by
  have hbefore := width_lastLine_le before
  have hmore := width_lastLine_le more
  rw [Prod.lex_def, placeBehind, placeBehind, count_newline, count_newline, List.count_append,
    width_append]
  dsimp only
  by_cases hbreak : '\n' ∈ more
  · have := List.count_pos_iff.2 hbreak
    rw [lastLine_append_of_mem hbreak]
    omega
  · have hempty : (lastLine before).length = 0 ↔ width (lastLine before) = 0 := by
      constructor
      · intro h
        rw [List.length_eq_zero_iff.1 h]
        rfl
      · intro h
        by_contra hne
        exact absurd h (Nat.ne_of_gt (width_pos fun hnil => hne (by rw [hnil]; rfl)))
    rw [List.count_eq_zero.2 hbreak, lastLine_append hbreak, width_append]
    omega

end Text

namespace LineTable

-- ===================================================================== places

section

variable {source : List Char} (h : width source < Span.maxOffset)
include h

/-- Offsets further on are on no earlier line. -/
theorem line_mono {o o' : Nat} (hle : o ≤ o') :
    (ofSource source).line o ≤ (ofSource source).line o' := by
  rw [line_of_lt h, line_of_lt h]
  refine Nat.succ_le_succ (List.countP_mono_left fun start _ hstart => ?_)
  exact decide_eq_true (Nat.le_trans (of_decide_eq_true hstart) hle)

/-- An offset inside a character is on the line of that character. -/
theorem line_inside {before : List Char} {offset : Nat} (hinside : FallsInside source offset before) :
    (ofSource source).line offset = fromOne (before.count '\n') := by
  obtain ⟨c, after, rfl, hpos, hless⟩ := hinside
  have hc : c ≠ '\n' := by
    rintro rfl
    have hone : ('\n' : Char).utf8Size = 1 := rfl
    omega
  rw [← line_boundary (Nat.le_of_lt h), line_ofSource (Nat.le_of_lt h),
    line_ofSource (Nat.le_of_lt h)]
  rw [width_append, width_cons] at h
  -- no line starts inside the character, so the two offsets are past the same starts
  refine congrArg fromOne (List.countP_congr fun start hstart => ?_)
  rw [startsFrom_append, startsFrom_cons, if_neg hc, List.nil_append, Nat.zero_add] at hstart
  rw [decide_eq_true_iff, decide_eq_true_iff]
  rcases List.mem_append.1 hstart with hstart | hstart
  · have := (bounds_of_mem_startsFrom (by omega) hstart).2
    omega
  · have := (bounds_of_mem_startsFrom (by omega) hstart).1
    omega

/-- An offset inside a character is in the first column of its line. The slice
from the start of the line to such an offset is none, and what is not there
has no characters. -/
theorem position_inside {before : List Char} {offset : Nat}
    (hinside : FallsInside source offset before) :
    (ofSource source).position source offset = ((placeBehind before).1, 1) := by
  have hline := line_inside h hinside
  obtain ⟨c, after, rfl, hpos, hless⟩ := hinside
  obtain ⟨passed, hpassed, hbreak⟩ := exists_append_lastLine before
  have hcount : before.count '\n' < Span.maxOffset := by
    have := count_le_width before
    rw [width_append] at h
    omega
  have hslice : slice? (width passed) offset (before ++ c :: after) = none := by
    rw [hpassed] at hpos hless ⊢
    exact slice?_inside passed (lastLine before) after hpos hless
  have hstop : max (min offset (width (before ++ c :: after))) (width passed) = offset := by
    have hwidth := congrArg width hpassed
    rw [width_append] at hwidth
    rw [width_append, width_cons]
    omega
  unfold position
  dsimp only
  rw [hline, indexOf_fromOne (Nat.le_of_lt hcount), start_boundary (Nat.le_of_lt h) hpassed hbreak,
    Option.getD_some, hstop, hslice, placeBehind, count_newline, fromOne_of_lt hcount]
  rfl

/-- Every offset is in some column. -/
theorem one_le_column (offset : Nat) : 1 ≤ ((ofSource source).position source offset).2 := by
  have hboundary : ∀ o, IsBoundary source o → 1 ≤ ((ofSource source).position source o).2 := by
    intro o ho
    obtain ⟨before, after, hsource, rfl⟩ := ho
    rw [position_width h hsource]
    exact Nat.le_add_left 1 _
  rcases Nat.le_total offset (width source) with hwithin | hpast
  · rcases isBoundary_or_fallsInside hwithin with ho | ⟨before, hinside⟩
    · exact hboundary offset ho
    · have hcolumn := congrArg Prod.snd (position_inside h hinside)
      exact Nat.le_of_eq hcolumn.symm
  · rw [position_of_width_le h hpast]
    exact hboundary _ ⟨source, [], (List.append_nil source).symm, rfl⟩

-- ====================================================================== order

/-- Offsets between characters, or past the end, are placed in their order. -/
theorem lex_position_of_isBoundary {o o' : Nat} (hle : o ≤ o') (ho : IsBoundary source o)
    (ho' : ∀ before, ¬ FallsInside source o' before) :
    Prod.Lex (· < ·) (· ≤ ·) ((ofSource source).position source o)
      ((ofSource source).position source o') := by
  have hboundaries : ∀ n, IsBoundary source n → o ≤ n →
      Prod.Lex (· < ·) (· ≤ ·) ((ofSource source).position source o)
        ((ofSource source).position source n) := by
    intro n hn hon
    rcases Nat.lt_or_eq_of_le hon with hless | rfl
    · have hlex := lex_position h ho hn hless
      rw [Prod.lex_def] at hlex ⊢
      omega
    · exact .right _ (Nat.le_refl _)
  rcases Nat.le_total o' (width source) with hwithin | hpast
  · exact hboundaries o' ((isBoundary_or_fallsInside hwithin).resolve_right
      fun hinside => hinside.elim ho') hle
  · rw [position_of_width_le h hpast]
    exact hboundaries _ ⟨source, [], (List.append_nil source).symm, rfl⟩ ho.le_width

/-- What comes behind an offset inside a character is placed no earlier. -/
theorem lex_position_of_fallsInside {o o' : Nat} (hle : o ≤ o') {before : List Char}
    (ho : FallsInside source o before) :
    Prod.Lex (· < ·) (· ≤ ·) ((ofSource source).position source o)
      ((ofSource source).position source o') := by
  have hline : ((ofSource source).position source o).1
      ≤ ((ofSource source).position source o').1 := line_mono h hle
  have hfirst : ((ofSource source).position source o).2 = 1 := by rw [position_inside h ho]
  have hcolumn : 1 ≤ ((ofSource source).position source o').2 := one_le_column h o'
  rw [Prod.lex_def]
  omega

/-- Lines come in the order of offsets. An offset inside a character is placed
in the first column of its line, where a report that is drawn puts it where
the character starts. So of two offsets the first one is placed no later than
the second one, unless the second one is inside a character and the first one
is between characters, behind the start of the line. -/
theorem position_le_iff {o o' : Nat} (hle : o ≤ o') :
    let table := ofSource source
    table.line o ≤ table.line o'
      ∧ (∀ before, FallsInside source o' before →
        table.position source o' = ((placeBehind before).1, 1)
          ∧ charsBefore o' source = before.length)
      ∧ (Prod.Lex (· < ·) (· ≤ ·) (table.position source o) (table.position source o') ↔
        ∀ before, FallsInside source o' before → IsBoundary source o →
          o ≤ width before - width (lastLine before)) := by
  refine ⟨line_mono h hle,
    fun before hinside => ⟨position_inside h hinside, charsBefore_inside hinside⟩, ?_, ?_⟩
  -- inside a character the second place is at the start of its line, so the first one must not
  -- be past it
  · intro hlex before hinside ho
    obtain ⟨front, behind, hsource, rfl⟩ := ho
    obtain ⟨more, rfl⟩ := hinside.exists_append hsource hle
    rw [position_inside h hinside, position_width h hsource] at hlex
    exact (lex_placeBehind_start front more).1 hlex
  · intro hallowed
    by_cases ho : IsBoundary source o
    · by_cases hinside : ∃ before, FallsInside source o' before
      · obtain ⟨before, hinside⟩ := hinside
        have hstart := hallowed before hinside ho
        obtain ⟨front, behind, hsource, rfl⟩ := ho
        obtain ⟨more, rfl⟩ := hinside.exists_append hsource hle
        rw [position_inside h hinside, position_width h hsource]
        exact (lex_placeBehind_start front more).2 hstart
      · exact lex_position_of_isBoundary h hle ho (not_exists.1 hinside)
    -- the first offset is inside a character, at the start of a line itself, or past the end
    -- with the second
    · rcases Nat.le_total o (width source) with hwithin | hpast
      · obtain ⟨before, hinside⟩ := (isBoundary_or_fallsInside hwithin).resolve_left ho
        exact lex_position_of_fallsInside h hle hinside
      · have hlast := position_of_width_le h hpast
        have hlast' := position_of_width_le h (Nat.le_trans hpast hle)
        rw [Prod.lex_def, hlast, hlast']
        exact .inr ⟨rfl, Nat.le_refl _⟩

end

/-- A letter of one byte, and one of two bytes. -/
def twoLetters : List Char := "aé".toList

/-- The offset 2 is inside the second letter. -/
theorem twoLetters_inside : FallsInside twoLetters 2 ['a'] :=
  ⟨'é', [], rfl, by decide, by decide⟩

/-- Looked up behind the first letter and inside the second one: the second
lookup is in the first column. -/
theorem position_le_iff_twoLetters :
    width twoLetters < Span.maxOffset
      ∧ (ofSource twoLetters).position twoLetters 2 = (1, 1)
      ∧ charsBefore 2 twoLetters = 1
      ∧ (Prod.Lex (· < ·) (· ≤ ·) ((ofSource twoLetters).position twoLetters 1)
          ((ofSource twoLetters).position twoLetters 2) ↔
        ∀ before, FallsInside twoLetters 2 before → IsBoundary twoLetters 1 →
          1 ≤ width before - width (lastLine before)) := by
  have hwidth : width twoLetters < Span.maxOffset := by decide
  obtain ⟨-, hinside, horder⟩ := position_le_iff hwidth (show 1 ≤ 2 by decide)
  obtain ⟨hplace, hcount⟩ := hinside ['a'] twoLetters_inside
  exact ⟨hwidth, hplace.trans (by decide), hcount, horder⟩

/-- Lookups do not come in the order of all offsets: inside the second letter,
the place is before the one where that letter starts. -/
theorem position_not_monotone :
    ¬ ∀ (source : List Char) (o o' : Nat), width source < Span.maxOffset → o ≤ o' →
      Prod.Lex (· < ·) (· ≤ ·) ((ofSource source).position source o)
        ((ofSource source).position source o') := by
  intro hall
  have hwidth : width twoLetters < Span.maxOffset := by decide
  have hlex := hall twoLetters 1 2 hwidth (by decide)
  have hsource : twoLetters = ['a'] ++ ['é'] := rfl
  have hfirst : (ofSource twoLetters).position twoLetters 1 = placeBehind ['a'] :=
    position_width hwidth hsource
  rw [hfirst, position_inside hwidth twoLetters_inside, Prod.lex_def] at hlex
  revert hlex
  decide

end LineTable

end UiScript
