/-
Block comments. Cut into lines, a source has a block comment from a line that
starts with the opening marker up to the end of the first later line that
starts with the closing one, and nothing that stands in between matters.

A marker has to end: behind it there is a space character, or the line is
over. Two space characters do not count there, the vertical tab and the form
feed, and one character that is none does: NUL, which cannot be told apart
from the end of the source (`MayFollow`).

A line begins at the start of the source and behind each line break. No token
ends with a line break, so the spaces before a token tell whether a line
begins there (`beginsLine_iff`).

# Main statements

* `isMarked_iff`: a marker stands in front of a text if the line is marked.
* `blockComment_closed`, `blockComment_unclosed`: a comment ends with the first
  later line that closes it, and does not end without one.
* `beginsLine_iff`: the spaces tell whether a line begins.
* `ofSource_lineStart_equals`: what an equals sign starts where a line begins.
-/
import Mathlib.Data.List.Basic
import Mathlib.Data.List.TakeWhile
import UiScript.Proofs.Scanning.Bounds
import UiScript.Proofs.Scanning.Cutoff
import UiScript.Proofs.Scanning.Reaching

namespace UiScript.Token

open Text
open Lexeme (isSpace)

namespace Lexeme

-- ===================================================================== markers

/-- The characters that may follow a marker: spaces but for two, and NUL. -/
def MayFollow (c : Char) : Prop := isSpace c = true ∧ c ≠ '\x0b' ∧ c ≠ '\x0c' ∨ c = '\x00'

/-- A line starts with a marker, and the marker ends. -/
def Marked (marker line : List Char) : Prop :=
  ∃ after, line = marker ++ after ∧ ∀ c ∈ after.head?, MayFollow c

theorem markerEnds_iff {cs : List Char} :
    markerEnds cs = true ↔ ∀ c ∈ cs.head?, MayFollow c := by
  cases cs with
  | nil => simp [markerEnds]
  | cons c cs =>
    have hhead : (∀ d ∈ (c :: cs).head?, MayFollow d) ↔ MayFollow c := by simp
    rw [hhead]
    simp only [markerEnds, MayFollow, isSpace, Bool.or_eq_true, beq_iff_eq]
    constructor
    · rintro ((((rfl | rfl) | rfl) | rfl) | rfl) <;> simp
    · rintro (⟨(((((rfl | rfl) | rfl) | rfl) | rfl) | rfl), hvertical, hfeed⟩ | rfl) <;> simp_all

/-- A marker stands in front of a text if the line that starts there is
marked. The check looks at a prefix and at what is behind it, the right side
at a line. -/
theorem isMarked_iff {marker cs : List Char} : isMarked marker cs = true ↔ Marked marker cs := by
  unfold isMarked Marked
  rw [Bool.and_eq_true, List.isPrefixOf_iff_prefix]
  constructor
  · rintro ⟨⟨after, rfl⟩, hends⟩
    rw [List.drop_left] at hends
    exact ⟨after, rfl, markerEnds_iff.1 hends⟩
  · rintro ⟨after, rfl, hends⟩
    refine ⟨List.prefix_append .., ?_⟩
    rw [List.drop_left]
    exact markerEnds_iff.2 hends

instance (marker line : List Char) : Decidable (Marked marker line) :=
  decidable_of_iff _ isMarked_iff

-- ======================================================================== lines

/-- Lines, each of them behind a line break. -/
def behind (lines : List (List Char)) : List Char := lines.flatMap ('\n' :: ·)

theorem behind_cons (line : List Char) (lines : List (List Char)) :
    behind (line :: lines) = '\n' :: (line ++ behind lines) := rfl

theorem behind_append (lines more : List (List Char)) :
    behind (lines ++ more) = behind lines ++ behind more := List.flatMap_append

theorem intercalate_cons (first : List Char) (later : List (List Char)) :
    ['\n'].intercalate (first :: later) = first ++ behind later := by
  induction later generalizing first with
  | nil => rw [List.intercalate_singleton, behind, List.flatMap_nil, List.append_nil]
  | cons second later ih =>
    rw [List.intercalate_cons_cons, ih, behind_cons, List.append_assoc, List.singleton_append]

/-- A text is its first line, and the later ones. -/
theorem eq_append_behind {cs first : List Char} {later : List (List Char)}
    (h : cs.splitOn '\n' = first :: later) : cs = first ++ behind later := by
  rw [← intercalate_cons, ← h, List.intercalate_splitOn]

/-- No line has a line break in it. -/
theorem not_mem_of_mem_splitOn {cs line : List Char} (h : line ∈ cs.splitOn '\n') : '\n' ∉ line := by
  induction cs generalizing line with
  | nil =>
    rw [List.splitOn, List.splitOnP_nil, List.mem_singleton] at h
    subst h
    exact List.not_mem_nil
  | cons c cs ih =>
    rw [List.splitOn, List.splitOnP_cons_eq_if_modifyHead] at h
    split at h
    · rcases List.mem_cons.1 h with rfl | hline
      · exact List.not_mem_nil
      · exact ih hline
    · next hc =>
      -- the character joins the first line
      cases hlines : cs.splitOn '\n' with
      | nil => exact absurd hlines (List.splitOnP_ne_nil _ _)
      | cons first later =>
        rw [hlines] at ih
        rw [← List.splitOn, hlines, List.modifyHead_cons] at h
        rcases List.mem_cons.1 h with rfl | hline
        · rw [List.mem_cons, not_or]
          exact ⟨fun hbreak => hc (beq_iff_eq.2 hbreak.symm), ih List.mem_cons_self⟩
        · exact ih (List.mem_cons_of_mem _ hline)

-- ============================================================= closing markers

/-- The first line of a text tells whether it is marked. -/
theorem isMarked_append_behind {marker : List Char} (hmarker : '\n' ∉ marker) (line : List Char)
    (lines : List (List Char)) : isMarked marker (line ++ behind lines) = isMarked marker line := by
  cases lines with
  | nil => rw [behind, List.flatMap_nil, List.append_nil]
  | cons next lines => exact isMarked_append hmarker line

/-- Within a line, no comment ends. -/
theorem splitCommentFrom_line {line : List Char} (hline : '\n' ∉ line) (passed cs : List Char) :
    splitCommentFrom passed (line ++ cs) = splitCommentFrom (line.reverse ++ passed) cs := by
  induction line generalizing passed with
  | nil => rfl
  | cons c line ih =>
    obtain ⟨hc, hline⟩ := not_or.1 (mt List.mem_cons.2 hline)
    rw [List.cons_append, splitCommentFrom, decide_eq_false (Ne.symm hc), Bool.false_and,
      if_neg Bool.false_ne_true, ih hline]
    simp

variable {inner : List (List Char)}

/-- Lines that are not marked are passed. -/
theorem splitCommentFrom_inner (hlines : ∀ line ∈ inner, '\n' ∉ line)
    (hinner : ∀ line ∈ inner, ¬ Marked closingMarker line) (passed : List Char)
    (lines : List (List Char)) :
    splitCommentFrom passed (behind (inner ++ lines))
      = splitCommentFrom ((behind inner).reverse ++ passed) (behind lines) := by
  have hmarker : '\n' ∉ closingMarker := by decide
  induction inner generalizing passed with
  | nil => rfl
  | cons line inner ih =>
    obtain ⟨hline, hlines⟩ := List.forall_mem_cons.1 hlines
    obtain ⟨hmarked, hinner⟩ := List.forall_mem_cons.1 hinner
    rw [← isMarked_iff] at hmarked
    rw [List.cons_append, behind_cons, splitCommentFrom, isMarked_append_behind hmarker,
      Bool.eq_false_iff.2 hmarked, Bool.and_false, if_neg Bool.false_ne_true,
      splitCommentFrom_line hline, ih hlines hinner, behind_cons]
    simp

/-- A comment ends before the first line that is marked. -/
theorem splitCommentFrom_behind (hlines : ∀ line ∈ inner, '\n' ∉ line)
    (hinner : ∀ line ∈ inner, ¬ Marked closingMarker line) {closing : List Char}
    (hclosing : Marked closingMarker closing) (beyond : List (List Char)) :
    splitCommentFrom [] (behind (inner ++ closing :: beyond))
      = some (behind inner ++ ['\n'], closing ++ behind beyond) := by
  have hmarker : '\n' ∉ closingMarker := by decide
  rw [splitCommentFrom_inner hlines hinner, behind_cons, splitCommentFrom,
    isMarked_append_behind hmarker, isMarked_iff.2 hclosing, decide_eq_true rfl, Bool.and_true,
    if_pos rfl]
  simp

/-- A comment does not end if no line is marked. -/
theorem splitCommentFrom_unclosed (hlines : ∀ line ∈ inner, '\n' ∉ line)
    (hinner : ∀ line ∈ inner, ¬ Marked closingMarker line) :
    splitCommentFrom [] (behind inner) = none := by
  have hall := splitCommentFrom_inner hlines hinner [] []
  rwa [List.append_nil] at hall

-- ==================================================================== comments

/-- Up to a line break, and from there on. -/
theorem span_behind {line : List Char} (hline : '\n' ∉ line) (lines : List (List Char)) :
    (line ++ behind lines).takeWhile (· != '\n') = line
      ∧ (line ++ behind lines).dropWhile (· != '\n') = behind lines := by
  have hall : ∀ c ∈ line, (c != '\n') = true := by
    intro c hc
    rw [bne_iff_ne]
    rintro rfl
    exact hline hc
  rw [List.takeWhile_append_of_pos hall, List.dropWhile_append_of_pos hall]
  cases lines with
  | nil => exact ⟨List.append_nil line, rfl⟩
  | cons next lines =>
    rw [behind_cons]
    exact ⟨List.append_nil line, rfl⟩

/-- A block comment ends with the first later line that closes it. The comment
is the text up to that line, and what is left starts behind the line. -/
theorem blockComment_closed {first closing : List Char} {beyond : List (List Char)}
    (hfirst : '\n' ∉ first) (hlines : ∀ line ∈ inner ++ closing :: beyond, '\n' ∉ line)
    (hinner : ∀ line ∈ inner, ¬ Marked closingMarker line)
    (hclosing : Marked closingMarker closing) :
    blockComment (first ++ behind (inner ++ closing :: beyond)) = .ok {
      kind := .comment (String.ofList (trimLineBreaks (behind inner ++ ['\n'])))
      text := first ++ behind (inner ++ [closing])
      rest := behind beyond } := by
  obtain ⟨htake, hdrop⟩ := span_behind hfirst (inner ++ closing :: beyond)
  obtain ⟨hinnerLines, hothers⟩ := List.forall_mem_append.1 hlines
  obtain ⟨hlast, -⟩ := List.forall_mem_cons.1 hothers
  obtain ⟨htakeLast, hdropLast⟩ := span_behind hlast beyond
  simp only [blockComment, htake, hdrop, splitCommentFrom_behind hinnerLines hinner hclosing,
    htakeLast, hdropLast]
  rw [behind_append, behind_cons]
  simp [behind]

/-- Without such a line, a block comment does not end, and the error reaches
from its marker to the end of the text. -/
theorem blockComment_unclosed {first : List Char} (hfirst : '\n' ∉ first)
    (hlines : ∀ line ∈ inner, '\n' ∉ line)
    (hinner : ∀ line ∈ inner, ¬ Marked closingMarker line) :
    blockComment (first ++ behind inner)
      = .error ⟨.unterminatedComment, ⟨0, width (first ++ behind inner)⟩⟩ := by
  simp only [blockComment, (span_behind hfirst inner).2, splitCommentFrom_unclosed hlines hinner]

-- ================================================================== line starts

/-- A numeral has no line break: up to one, it would have been the same. -/
theorem not_mem_text_split (cs : List Char) : '\n' ∉ (Numeral.split cs).1.text := by
  intro hmem
  obtain ⟨before, after, htext⟩ := List.append_of_mem hmem
  have hcs := Numeral.split_eq cs
  rw [htext, List.append_assoc, List.cons_append] at hcs
  have hsame : (Numeral.split cs).1 = (Numeral.split before).1 := by
    rw [← hcs, Numeral.split_append rfl]
  have hbefore := congrArg List.length (Numeral.split_eq before)
  rw [← hsame, htext] at hbefore
  simp only [List.length_append, List.length_cons] at hbefore
  omega

/-- No lexeme ends with a line break. -/
theorem getLast?_text_ne {atLineStart : Bool} {c : Char} {cs : List Char} {x : Lexeme}
    (h : ofChars atLineStart c cs = .ok x) (hc : isSpace c = false) :
    x.text.getLast? ≠ some '\n' := by
  have hnone {text : List Char} (htext : '\n' ∉ text) : text.getLast? ≠ some '\n' :=
    fun hlast => htext (List.mem_of_getLast? hlast)
  obtain ⟨form, hread, -⟩ := exists_form h
  cases form with
  | lineComment =>
    cases hread
    refine hnone fun hmem => not_mem_takeWhile (p := (· != '\n')) rfl cs ?_
    simpa [lineComment] using hmem
  | blockComment =>
    rw [Form.read, blockComment] at hread
    split at hread
    · cases hread
    · next body closing hsplit =>
      cases hread
      -- the last line is not empty: it holds the marker
      have hlength := length_le_of_isMarked (splitCommentFrom_closing hsplit).1
      have hline : closing.takeWhile (· != '\n') ≠ [] := List.ne_nil_of_length_pos
        (Nat.lt_of_lt_of_le (by decide) hlength)
      rw [List.getLast?_append_of_ne_nil _ hline]
      exact hnone (not_mem_takeWhile (p := (· != '\n')) rfl closing)
  | doubleQuoted =>
    rw [Form.read, doubleQuoted] at hread
    split at hread
    · cases hread
    · split at hread
      · cases hread
      · cases hread
        rw [← List.cons_append, List.getLast?_append_of_ne_nil _ (List.cons_ne_nil _ _)]
        decide
  | singleQuoted =>
    rw [Form.read, singleQuoted] at hread
    split at hread
    · cases hread
    · cases hread
      rw [← List.cons_append, List.getLast?_append_of_ne_nil _ (List.cons_ne_nil _ _)]
      decide
  | symbol =>
    cases hread
    exact hnone (by simpa [symbol] using not_mem_takeWhile (p := continuesName) rfl cs)
  | numeral =>
    cases hread
    exact hnone (not_mem_text_split (c :: cs))
  | word =>
    cases hread
    exact hnone (not_mem_takeWhile (p := continuesName) rfl (c :: cs))
  | mark =>
    cases hread
    refine hnone ?_
    rw [List.mem_singleton]
    rintro rfl
    cases hc

end Lexeme

/-- A place of a text where a line begins: at its start, or behind a line
break. -/
def StartsLine (passed : List Char) : Prop := passed = [] ∨ passed.getLast? = some '\n'

/-- What a scan has passed does not end with a line break. -/
theorem Reaches.exists_passed_line {source rest : List Char} {tokens : List Token} {position : Nat}
    (h : Reaches source tokens position rest) :
    ∃ passed, source = passed ++ rest ∧ width passed = position
      ∧ passed.getLast? ≠ some '\n' := by
  cases h with
  | start => exact ⟨[], rfl, rfl, by simp⟩
  | @lexeme tokens position gap c cs x before hgap hc hx =>
    obtain ⟨passed, hsource, hwidth⟩ := before.exists_passed
    rw [← Lexeme.text_append_rest hx] at hsource
    refine ⟨passed ++ (gap ++ x.text), by rw [hsource]; simp, ?_, ?_⟩
    · rw [width_append, width_append, hwidth, Nat.add_assoc]
    · rw [← List.append_assoc, List.getLast?_append_of_ne_nil _ (Lexeme.text_ne_nil hx)]
      exact Lexeme.getLast?_text_ne hx hc

/-- The spaces before a token tell whether a line begins there. At the start
of the source there need be no line break, and everywhere else the last space
must be one. -/
theorem beginsLine_iff {source gap cs passed : List Char} {tokens : List Token} {position : Nat}
    (h : Reaches source tokens position (gap ++ cs)) (hsource : source = passed ++ cs) :
    beginsLine position gap = true ↔ StartsLine passed := by
  obtain ⟨before, hbefore, rfl, hlast⟩ := h.exists_passed_line
  rw [hsource, ← List.append_assoc] at hbefore
  obtain rfl := List.append_cancel_right hbefore
  unfold beginsLine StartsLine
  cases hgap : gap.getLast? with
  | none =>
    obtain rfl := List.getLast?_eq_none_iff.1 hgap
    rw [List.append_nil, beq_iff_eq]
    constructor
    -- no space before the token: a line begins only at the start of the source
    · intro hwidth
      by_cases hne : before = []
      · exact .inl hne
      · have hpos := width_pos hne
        omega
    · rintro (rfl | hbreak)
      · rfl
      · exact absurd hbreak hlast
  | some c =>
    -- the last space tells
    have hne : gap ≠ [] := by
      rintro rfl
      cases hgap
    rw [List.getLast?_append_of_ne_nil _ hne, hgap, beq_iff_eq, Option.some.injEq]
    constructor
    · exact .inr
    · rintro (hnil | hbreak)
      · exact absurd (List.append_eq_nil_iff.1 hnil).2 hne
      · exact hbreak

-- ================================================================ whole sources

open Lexeme (Marked behind openingMarker closingMarker)

/-- An equals sign where a line begins. If its line is marked, there is a
comment up to the end of the first later line that closes it, and the source
is refused if there is no such line. If its line is not marked, the sign is a
token. Past the limit of offsets, places stay at the limit. -/
theorem ofSource_lineStart_equals {source : String} {tokens : List Token} {position : Nat}
    {gap cs passed first : List Char} {later : List (List Char)} (hgap : gap.all isSpace = true)
    (hreaches : Reaches source.toList tokens position (gap ++ '=' :: cs))
    (hsource : source.toList = passed ++ '=' :: cs) (hline : StartsLine passed)
    (hlines : ('=' :: cs).splitOn '\n' = first :: later) :
    let start := position + width gap
    (Marked openingMarker first → ∀ inner closing beyond, later = inner ++ closing :: beyond →
      (∀ line ∈ inner, ¬ Marked closingMarker line) → Marked closingMarker closing →
      let text := first ++ behind (inner ++ [closing])
      let body := Lexeme.trimLineBreaks (behind inner ++ ['\n'])
      let token : Token := ⟨.comment (String.ofList body), ⟨start, start + width text⟩⟩
      '=' :: cs = text ++ behind beyond
        ∧ Reaches source.toList (tokens ++ [token]) (start + width text) (behind beyond)
        ∧ ∀ ts, ofSourceWithComments source = .ok ts → token.saturate ∈ ts)
    ∧ (Marked openingMarker first → (∀ line ∈ later, ¬ Marked closingMarker line) →
      ∀ comments, ofSourceKeeping comments source
        = .error ⟨.unterminatedComment, Span.saturate ⟨start, width source.toList⟩⟩)
    ∧ (¬ Marked openingMarker first →
      let token : Token := ⟨.punctuation '=', ⟨start, start + 1⟩⟩
      Reaches source.toList (tokens ++ [token]) (start + 1) cs
        ∧ ∀ comments ts, ofSourceKeeping comments source = .ok ts → token.saturate ∈ ts) := by
  intro start
  have htext := Lexeme.eq_append_behind hlines
  have hnone : ∀ line ∈ first :: later, '\n' ∉ line := fun line hmem =>
    Lexeme.not_mem_of_mem_splitOn (hlines ▸ hmem)
  obtain ⟨hfirst, hlater⟩ := List.forall_mem_cons.1 hnone
  -- the check looks at a prefix of all that is left; only the first line matters to it
  have hmarked : Lexeme.isMarked openingMarker ('=' :: cs) = true ↔ Marked openingMarker first := by
    rw [htext, Lexeme.isMarked_append_behind (by decide), Lexeme.isMarked_iff]
  have hlexeme : Lexeme.ofChars (beginsLine position gap) '=' cs
      = if Lexeme.isMarked openingMarker ('=' :: cs) = true then Lexeme.blockComment ('=' :: cs)
        else .ok ⟨.punctuation '=', ['='], cs⟩ := by
    rw [Lexeme.ofChars_equals, (beginsLine_iff hreaches hsource).2 hline, Bool.true_and]
  refine ⟨?closed, ?unclosed, ?sign⟩
  case closed =>
    rintro hopen inner closing beyond rfl hinner hclosing text body token
    rw [if_pos (hmarked.2 hopen), htext,
      Lexeme.blockComment_closed hfirst hlater hinner hclosing] at hlexeme
    have hmade := hreaches.lexeme hgap rfl hlexeme
    refine ⟨?_, hmade, fun ts hts => ?_⟩
    · rw [htext, List.append_cons, Lexeme.behind_append, ← List.append_assoc]
    · exact hmade.saturate_mem hts List.mem_concat_self rfl
  case unclosed =>
    intro hopen hunclosed comments
    rw [if_pos (hmarked.2 hopen), htext, Lexeme.blockComment_unclosed hfirst hlater hunclosed,
      ← htext] at hlexeme
    have hstop : position + width gap + width ('=' :: cs) = width source.toList := by
      obtain ⟨before, hbefore, rfl⟩ := hreaches.exists_passed
      rw [hbefore, width_append, width_append, Nat.add_assoc]
    rw [hreaches.ofSource_error hgap rfl hlexeme, ← hstop]
    rfl
  case sign =>
    intro hopen token
    rw [if_neg (mt hmarked.1 hopen)] at hlexeme
    have hmade := hreaches.lexeme hgap rfl hlexeme
    refine ⟨hmade, fun comments ts hts => ?_⟩
    exact hmade.saturate_mem hts List.mem_concat_self (Bool.or_true comments)

/-- A comment with a line in it that only begins like a marker. -/
theorem ofSource_lineStart_equals_ending :
    Marked openingMarker "=begin".toList ∧ ¬ Marked closingMarker "=ending".toList
      ∧ Marked closingMarker "=end of it".toList
      ∧ ofSourceWithComments "=begin\n=ending\n=end of it"
        = .ok [⟨.comment "=ending", ⟨0, 25⟩⟩, ⟨.endOfInput, ⟨25, 25⟩⟩]
      ∧ Reaches "=begin\n=ending\n=end of it".toList [⟨.comment "=ending", ⟨0, 25⟩⟩] 25 [] := by
  have hopen : Marked openingMarker "=begin".toList := by decide
  have hinner : ¬ Marked closingMarker "=ending".toList := by decide
  have hclosing : Marked closingMarker "=end of it".toList := by decide
  have hwidth : width "=begin\n=ending\n=end of it".toList ≤ Span.maxOffset := by decide
  obtain ⟨-, hmade, -⟩ := (@ofSource_lineStart_equals "=begin\n=ending\n=end of it" [] 0 []
    "begin\n=ending\n=end of it".toList [] "=begin".toList ["=ending".toList, "=end of it".toList]
    rfl .start rfl (.inl rfl) rfl).1 hopen ["=ending".toList] "=end of it".toList [] rfl
    (List.forall_mem_singleton.2 hinner) hclosing
  refine ⟨hopen, hinner, hclosing, ?_, hmade⟩
  rw [ofSourceWithComments_eq_scan hwidth, hmade.scan_eq]
  exact congrArg _ (scan_nil 25)

/-- NUL ends a marker, as the end of the source does, and the vertical tab
does not. -/
theorem ofSource_marker_nul :
    isSpace '\x00' = false ∧ isSpace '\x0b' = true
      ∧ ofSource "=begin\x00" = .error ⟨.unterminatedComment, ⟨0, 7⟩⟩
      ∧ ofSource "=begin\x0b" = .ok [⟨.punctuation '=', ⟨0, 1⟩⟩, ⟨.identifier "begin", ⟨1, 6⟩⟩,
        ⟨.endOfInput, ⟨7, 7⟩⟩]
      ∧ ofSourceWithComments "=begin\n=end\x00"
        = .ok [⟨.comment "", ⟨0, 12⟩⟩, ⟨.endOfInput, ⟨12, 12⟩⟩] := by
  refine ⟨rfl, rfl, ?_, ?_, ?_⟩
  · rw [ofSource_eq_scan (by decide)]
    exact congrArg _ (@scan_gap 0 [] _ _ rfl rfl)
  · have hscan : scan [] 0 "=begin\x0b".toList = .ok [⟨.punctuation '=', ⟨0, 1⟩⟩,
        ⟨.identifier "begin", ⟨1, 6⟩⟩, ⟨.endOfInput, ⟨7, 7⟩⟩] := by
      refine scan_next [] rfl rfl rfl rfl rfl (scan_next [] rfl rfl rfl rfl rfl ?_)
      exact scan_step 6 ['\x0b']
    rw [ofSource_eq_scan (by decide), hscan]
    rfl
  · rw [ofSourceWithComments_eq_scan (by decide)]
    exact scan_next [] rfl rfl rfl rfl rfl (scan_nil 12)

end UiScript.Token
