/-
Where things go wrong. Whatever a source fails with, the failure is located
on characters of the source, its reader is shown the place where it starts,
and the line and the column on which it is reported are those of that place.

A lexical error fits the text that is scanned. A source that is no program
fails at one of its tokens. A program that fails does so at one of its calls,
and these are stretches of the tokens; for this it takes handlers that do not
locate their failures themselves, as those of the standard table.

# Main statements

* `Token.Stretch.fits`: a stretch of tokens fits the source.
* `parseUnder_error_fits`, `evaluate_error_fits`: where failures stand.
* `interpret_located`: where they are reported.
-/
import UiScript.Proofs.Grammar.Acceptance
import UiScript.Proofs.Grammar.Stretches
import UiScript.Proofs.Lookup
import UiScript.Proofs.Pipeline
import UiScript.Proofs.Reading.Failures
import UiScript.Proofs.Standard.Contributions

namespace UiScript

open Text

-- ================================================================= diagnostics

/-- The reader of a failure is shown where it starts. -/
theorem Failure.primarySpan?_start {failure : Failure} {span : Span}
    (h : failure.span? = some span) :
    failure.diagnostic.primarySpan?.map Span.start = some span.start := by
  cases failure with
  | lexical e =>
    obtain ⟨fault, s⟩ := e
    obtain rfl : s = span := Option.some.inj h
    cases fault <;> rfl
  | parsing e =>
    cases e with
    | grammar e =>
      obtain ⟨s, cause⟩ := e
      obtain rfl : s = span := Option.some.inj h
      cases cause <;> rfl
    | refused r =>
      obtain ⟨s, offender, violation⟩ := r
      obtain rfl : s = span := Option.some.inj h
      cases violation <;> rfl
  | execution e =>
    obtain ⟨cause, s, scope⟩ := e
    obtain rfl : s = some span := h
    cases scope <;> cases cause <;> try rfl
    all_goals
      simp only [diagnostic, ExecutionError.diagnostic]
      split <;> rfl

/-- The line and the column on which a failure is reported are those of its
place, counted in 32 bits. -/
theorem Failure.summary_eq {failure : Failure} {span : Span} {source : String}
    (h : failure.span? = some span) (hwidth : width source.toList ≤ Span.maxOffset) (path : String)
    {before after : List Char} (hsource : source.toList = before ++ after)
    (hstart : width before = span.start) :
    let line := LineTable.fromOne (before.count '\n')
    let column := LineTable.fromOne (lastLine before).length
    failure.diagnostic.summary path source
      = s!"{path}:{line}:{column}: {failure.diagnostic.text}" := by
  intro line column
  obtain ⟨shown, hshown, hsame⟩ := Option.map_eq_some_iff.1 (primarySpan?_start h)
  rw [hsource] at hwidth
  unfold Diagnostic.summary
  rw [hshown]
  dsimp only
  rw [hsource, hsame, ← hstart, LineTable.position_boundary hwidth]

-- ====================================================================== places

/-- A stretch of tokens that stand in order on a source fits the source. Its
ends are ends of tokens, and tokens in order do not run backwards. -/
theorem Token.Stretch.fits {ts : List Token} {s : Span} {cs : List Char} (h : Stretch ts s)
    (hfits : ∀ t ∈ ts, t.span.Fits cs)
    (hordered : ts.Pairwise fun t u => t.span.stop ≤ u.span.start) : s.Fits cs := by
  obtain ⟨before, t, after, u, rfl, hu, rfl⟩ := h
  have ht : t.span.Fits cs := hfits t (List.mem_append_right _ List.mem_cons_self)
  rcases List.mem_cons.1 hu with rfl | hmem
  · exact ht
  · have hu : u.span.Fits cs :=
      hfits u (List.mem_append_right _ (List.mem_cons_of_mem _ hmem))
    obtain ⟨hafter, -⟩ := List.pairwise_cons.1 (List.pairwise_append.1 hordered).2.1
    refine ht.cover hu ?_
    calc t.span.start ≤ t.span.stop := ht.ordered
      _ ≤ u.span.start := hafter u hmem
      _ ≤ u.span.stop := hu.ordered

namespace Interpreter

open Execution

variable {i : Interpreter} {policy : Policy} {source : String}

/-- What a source that has no program fails with stands on characters of the
source. A lexical error stands in its lexeme, and any other failure at a
token. -/
theorem parseUnder_error_fits (hwidth : width source.toList ≤ Span.maxOffset) {failure : Failure}
    (h : i.parseUnder policy source = .error failure) :
    ∃ span, failure.span? = some span ∧ span.Fits source.toList := by
  have hfits := Token.ofSource_fits hwidth
  rw [parseUnder_eq] at h
  cases hsource : Token.ofSource source with
  | error e =>
    rw [hsource] at h hfits
    cases h
    exact ⟨e.span, rfl, hfits⟩
  | ok tokens =>
    rw [hsource] at h hfits
    dsimp only at h
    cases hparse : (⟨policy, i.config.options⟩ : ParseRules).parse tokens with
    | ok program =>
      rw [hparse] at h
      cases h
    | error e =>
      rw [hparse] at h
      cases h
      obtain ⟨t, ht, hspan⟩ :=
        ParseRules.parse_error_span (Token.exists_end_of_ofSource hwidth hsource) hparse
      refine ⟨e.span, rfl, ?_⟩
      rw [hspan]
      exact hfits t ht

/-- The calls of a program stand on characters of its source. -/
theorem calls_fit (hwidth : width source.toList ≤ Span.maxOffset) {program : Expr}
    (h : i.parseUnder policy source = .ok program) :
    ∀ c ∈ program.calls, c.span.Fits source.toList := by
  intro c hc
  have hfits := Token.ofSource_fits hwidth
  obtain ⟨tokens, hsource, hparse⟩ := parseUnder_eq_ok_iff.1 h
  rw [hsource] at hfits
  obtain ⟨-, d, rest, hseen, -, -, -, rfl⟩ := ParseRules.derivation_of_parse hparse
  -- what is derived are the first of the tokens that are seen
  have hsub : d.tokens.Sublist tokens := by
    have hprefix : d.tokens.Sublist (d.tokens ++ rest) := List.sublist_append_left ..
    rw [← hseen] at hprefix
    exact hprefix.trans List.filter_sublist
  refine (d.calls_stretch c hc).fits (fun t ht => hfits t (hsub.subset ht)) ?_
  exact (Token.ordered_of_ofSource hwidth hsource).sublist hsub

/-- What a program fails with against the standard table stands at one of its
calls. No standard handler locates its failure, so the call that is dispatched
does. -/
theorem evaluate_error_fits {cs : List Char} {e : Expr} (h : ∀ c ∈ e.calls, c.span.Fits cs)
    (scope : Scope) : (evaluate Standard.table scope e).Fails fun failure =>
      ∃ span, failure.span = some span ∧ span.Fits cs := by
  refine evaluate_fails (fun e scope he => he) e scope fun c hc receiver args children => ?_
  have hdispatch : (dispatch Standard.table receiver
      (invocationOf c.method args children c.span)).Fails fun failure => failure.span = none := by
    refine dispatch_fails ?_ fun hunhandled => ?_
    · exact Standard.table_failsWith_plain.mono fun failure hplain => hplain.span
    · rw [dispatch_unhandled hunhandled]
      exact .failWith rfl
  refine hdispatch.mono fun failure hnone => ⟨c.span, ?_, h c hc⟩
  show some (failure.span.getD c.span) = some c.span
  rw [hnone]
  rfl

/-- Every failure is reported at the right place, under every configuration.
It has a span that starts and stops between characters of the source, in this
order; the first primary label of its diagnostic starts where it does; and in
its summary the line is one more than the line breaks before that place, and
the column one more than the characters between the last of these, or the
start of the source, and the place. The last holds of counts that 32 bits
hold, as all are in a source of fewer bytes than the greatest number of 32
bits. -/
theorem interpret_located (hwidth : width source.toList ≤ Span.maxOffset) {failure : Failure}
    (h : (i.interpret Standard.table source ()).1 = .error failure) :
    ∃ span, failure.span? = some span
      ∧ span.start ≤ span.stop ∧ span.stop ≤ width source.toList
      ∧ IsBoundary source.toList span.start ∧ IsBoundary source.toList span.stop
      ∧ failure.diagnostic.primarySpan?.map Span.start = some span.start
      ∧ ∀ path before after, source.toList = before ++ after → width before = span.start →
        let line := before.count '\n' + 1
        let column := (lastLine before).length + 1
        (width source.toList < Span.maxOffset → line ≤ Span.maxOffset ∧ column ≤ Span.maxOffset)
          ∧ (line ≤ Span.maxOffset → column ≤ Span.maxOffset →
            failure.diagnostic.summary path source
              = s!"{path}:{line}:{column}: {failure.diagnostic.text}") := by
  -- before the execution failures stand at lexemes and tokens, in it at calls
  have hlocated : ∃ span, failure.span? = some span ∧ span.Fits source.toList := by
    obtain hread | ⟨program, e, hparse, hrun, rfl⟩ := interpret_error h
    · exact parseUnder_error_fits hwidth hread
    · exact evaluate_error_fits (calls_fit hwidth hparse) .root () e hrun
  obtain ⟨span, hspan, hfits⟩ := hlocated
  refine ⟨span, hspan, hfits.ordered, hfits.stop.le_width, hfits.start, hfits.stop,
    Failure.primarySpan?_start hspan, ?_⟩
  intro path before after hsource hstart line column
  have hbefore : width before ≤ width source.toList := by
    rw [hsource, width_append]
    exact Nat.le_add_right _ _
  refine ⟨fun hshort => ?_, fun hline hcolumn => ?_⟩
  · have hlines := count_le_width before
    have hcharacters := length_lastLine_le before
    exact ⟨by omega, by omega⟩
  -- the lines and columns that fit are counted without the overflow
  · rw [Failure.summary_eq hspan hwidth path hsource hstart, LineTable.fromOne_of_lt hline,
      LineTable.fromOne_of_lt hcolumn]

/-- A string that is not closed, on the second line, behind a character of two
bytes. -/
theorem interpret_located_openString :
    width "#é\n 'x".toList ≤ Span.maxOffset
      ∧ (openly.interpret Standard.table "#é\n 'x" ()).1
        = .error (.lexical ⟨.unterminatedString, ⟨5, 7⟩⟩)
      ∧ (Failure.lexical ⟨.unterminatedString, ⟨5, 7⟩⟩).diagnostic.summary "ui.weft" "#é\n 'x"
        = "ui.weft:2:2: error[E0001]: unterminated string literal" := by
  have hwidth : width "#é\n 'x".toList ≤ Span.maxOffset := by decide
  have hscan : Token.scan [] 0 "#é\n 'x".toList = .error ⟨.unterminatedString, ⟨5, 7⟩⟩ := by
    rw [Token.scan_step]
    show (Token.scan [] 3 ['\n', ' ', '\'', 'x']).map _ = _
    rw [Token.scan_step]
    rfl
  have hparse : openly.parseUnder (openly.policyFor Standard.table) "#é\n 'x"
      = .error (.lexical ⟨.unterminatedString, ⟨5, 7⟩⟩) := by
    rw [parseUnder_eq, Token.ofSource_eq_scan hwidth, hscan]
    rfl
  have hrun : (openly.interpret Standard.table "#é\n 'x" ()).1
      = .error (.lexical ⟨.unterminatedString, ⟨5, 7⟩⟩) := by
    rw [interpret_of_parse_error hparse]
  obtain ⟨span, hspan, -, -, -, -, -, hsummary⟩ := interpret_located hwidth hrun
  obtain rfl : (⟨5, 7⟩ : Span) = span := Option.some.inj hspan
  refine ⟨hwidth, hrun, ?_⟩
  obtain ⟨hfits, hplace⟩ :=
    hsummary "ui.weft" ['#', 'é', '\n', ' '] ['\'', 'x'] (by decide) (by decide)
  obtain ⟨hline, hcolumn⟩ := hfits (by decide)
  rw [hplace hline hcolumn]
  rfl

-- ==================================================================== the limit

/-- Nothing but blanks. -/
def blanks (n : Nat) : String := String.ofList (List.replicate n ' ')

theorem width_blanks (n : Nat) : width (blanks n).toList = n := by
  rw [blanks, String.toList_ofList]
  induction n with
  | zero => rfl
  | succ n ih =>
    rw [List.replicate_succ, width_cons, ih]
    exact Nat.add_comm 1 n

/-- Blanks hold no program, which is noticed where they end. -/
theorem interpret_blanks {n : Nat} (h : n ≤ Span.maxOffset) :
    (openly.interpret Standard.table (blanks n) ()).1
      = .error (.parsing (.grammar ⟨.point n, .emptyInput⟩)) := by
  have hspaces : (List.replicate n ' ').all Token.Lexeme.isSpace = true :=
    List.all_eq_true.2 fun c hc => by rw [List.eq_of_mem_replicate hc]; rfl
  have hscan : Token.scan [] 0 (blanks n).toList = .ok [⟨.endOfInput, .point n⟩] := by
    have hwidth := width_blanks n
    rw [blanks, String.toList_ofList] at hwidth ⊢
    rw [Token.scan_of_all_isSpace 0 hspaces, hwidth, Nat.zero_add]
  have hsource : Token.ofSource (blanks n) = .ok [⟨.endOfInput, .point n⟩] := by
    rw [Token.ofSource_eq_scan (Nat.le_trans (Nat.le_of_eq (width_blanks n)) h), hscan]
    rfl
  have hparse : openly.parseUnder (openly.policyFor Standard.table) (blanks n)
      = .error (.parsing (.grammar ⟨.point n, .emptyInput⟩)) := by
    have hstart : ParseRules.startOf [⟨.endOfInput, .point n⟩]
        = ⟨Cursor.ofTokens [⟨.endOfInput, .point n⟩], 0⟩ := by
      rw [ParseRules.startOf, Cursor.skipSeparators]
      exact congrArg (ParseState.mk · 0) (dif_neg Bool.false_ne_true)
    rw [parseUnder_eq, hsource]
    dsimp only
    rw [ParseRules.parse_eq, hstart]
    rfl
  rw [interpret_of_parse_error hparse]

/-- Blanks are one line, which has as many characters as they have bytes. -/
theorem line_blanks (n : Nat) :
    (blanks n).toList.count '\n' = 0 ∧ (lastLine (blanks n).toList).length = n := by
  rw [blanks, String.toList_ofList]
  have hbreak : '\n' ∉ List.replicate n ' ' := fun h =>
    absurd (List.eq_of_mem_replicate h) (by decide)
  have hlast : lastLine ([] ++ List.replicate n ' ') = [] ++ List.replicate n ' ' :=
    lastLine_append hbreak
  rw [List.nil_append] at hlast
  exact ⟨List.count_eq_zero.2 hbreak, by rw [hlast, List.length_replicate]⟩

/-- As many blanks as there may be: the offset of their end is the last one
there is, and a column counted from one is back at zero there. -/
theorem summary_blanks_maxOffset :
    (Failure.parsing (.grammar ⟨.point Span.maxOffset, .emptyInput⟩)).diagnostic.summary "ui.weft"
        (blanks Span.maxOffset)
      = "ui.weft:1:0: error[E1009]: empty input: expected a statement, found end of input" := by
  obtain ⟨hcount, hlength⟩ := line_blanks Span.maxOffset
  rw [Failure.summary_eq rfl (Nat.le_of_eq (width_blanks Span.maxOffset)) "ui.weft"
    (List.append_nil _).symm (width_blanks Span.maxOffset), hcount, hlength,
    LineTable.fromOne_of_lt (by decide), LineTable.fromOne_maxOffset]
  rfl

/-- At the limit the column is not one more than the characters before the
place. -/
theorem interpret_blanks_maxOffset :
    ¬ ∀ (i : Interpreter) (source : String) (failure : Failure) (span : Span)
        (before after : List Char), width source.toList ≤ Span.maxOffset →
      (i.interpret Standard.table source ()).1 = .error failure → failure.span? = some span →
      source.toList = before ++ after → width before = span.start →
      let line := before.count '\n' + 1
      let column := (lastLine before).length + 1
      failure.diagnostic.summary "ui.weft" source
        = s!"ui.weft:{line}:{column}: {failure.diagnostic.text}" := by
  intro hall
  have hsummary := hall openly (blanks Span.maxOffset) _ (.point Span.maxOffset)
    (blanks Span.maxOffset).toList [] (Nat.le_of_eq (width_blanks _))
    (interpret_blanks (Nat.le_refl _)) rfl (List.append_nil _).symm (width_blanks _)
  obtain ⟨hcount, hlength⟩ := line_blanks Span.maxOffset
  dsimp only at hsummary
  rw [summary_blanks_maxOffset, hcount, hlength] at hsummary
  revert hsummary
  decide

end Interpreter

end UiScript
