/-
A program that could end may go on after a separator. No production takes a
separator, so that whatever is greedy before the end of the input is greedy
before a separator too; the statements of the program are then read as they
were, and reading goes on with what follows the separators.

# Main statements

* `Body.greedy_of_untaken`: greed before one token is greed before another,
  if nothing takes that one.
* `readProgram_continue`: reading goes on behind the separators.
* `parse_join`: two lists of tokens with a separator between them are read
  as they are on their own.
-/
import UiScript.Proofs.Grammar.Acceptance
import UiScript.Proofs.Reading.Comparison

namespace UiScript

open Token (mark front)

namespace Derivation

-- =================================================================== greed

/-- A kind of token that no call, argument or block takes, so that it never
matters what it is. -/
def Untaken (kind : Token.Kind) : Prop :=
  kind ≠ .punctuation '(' ∧ kind ≠ .punctuation ':' ∧ ∀ fence : Fence, kind ≠ fence.opening

/-- No call, argument or block starts with a separator or a colon. -/
theorem untaken_separator : Untaken (.punctuation ';') := by
  refine ⟨by decide, by decide, fun fence => ?_⟩
  cases fence <;> decide

/-- What comes first matters only if nothing comes before it. -/
theorem of_front {P : Token.Kind → Prop} {next next' : Token.Kind} {ts : List Token}
    (h : P (front next ts)) (hP : P next → P next') : P (front next' ts) := by
  cases ts with
  | nil => exact hP h
  | cons t ts => exact h

mutual
/-- A chain that is greedy before one token is so before one that nothing
takes. -/
theorem Chain.greedy_of_untaken (d : Chain) {next next' : Token.Kind} (h : d.Greedy next)
    (hnext : Untaken next') : d.Greedy next' := by
  cases d with
  | mk first links =>
    exact ⟨of_front h.1 fun hfirst => first.greedy_of_untaken hfirst hnext,
      links.greedy_of_untaken h.2 hnext⟩

/-- Links that are greedy before one token are so before one that nothing
takes. -/
theorem Links.greedy_of_untaken (d : Links) {next next' : Token.Kind} (h : d.Greedy next)
    (hnext : Untaken next') : d.Greedy next' := by
  cases d with
  | none => trivial
  | more point call rest =>
    exact ⟨of_front h.1 fun hcall => call.greedy_of_untaken hcall hnext,
      rest.greedy_of_untaken h.2 hnext⟩

theorem Primary.greedy_of_untaken (d : Primary) {next next' : Token.Kind} (h : d.Greedy next)
    (hnext : Untaken next') : d.Greedy next' := by
  cases d with
  | call call => exact call.greedy_of_untaken h hnext
  | literal value span => trivial
  | parenthesized opened inner closed => exact h

/-- A call that is greedy before one token is so before one that nothing
takes. -/
theorem Call.greedy_of_untaken (d : Call) {next next' : Token.Kind} (h : d.Greedy next)
    (hnext : Untaken next') : d.Greedy next' := by
  cases d with
  | mk name span args block =>
    exact ⟨of_front h.1 fun hargs => args.greedy_of_untaken hargs hnext,
      block.greedy_of_untaken h.2 hnext⟩

theorem Arguments.greedy_of_untaken (d : Arguments) {next next' : Token.Kind} (h : d.Greedy next)
    (hnext : Untaken next') : d.Greedy next' := by
  cases d with
  | none => exact hnext.1
  | list opened items closed => exact h

theorem Block.greedy_of_untaken (d : Block) {next next' : Token.Kind} (h : d.Greedy next)
    (hnext : Untaken next') : d.Greedy next' := by
  cases d with
  | none => exact hnext.2.2
  | fenced fence opened body closed => exact h
end

/-- Greed before one token is greed before another, if nothing takes that one.
The end of the input and the separator are two such tokens, so a program may
go on where it could have ended. -/
theorem Body.greedy_of_untaken (d : Body) {next next' : Token.Kind} (h : d.Greedy next)
    (hnext : Untaken next') : d.Greedy next' := by
  match d with
  | .done separators => trivial
  | .more separators statement rest =>
    exact ⟨of_front h.1 fun hstatement => statement.greedy_of_untaken hstatement hnext,
      rest.greedy_of_untaken h.2 hnext⟩

end Derivation

namespace ParseRules

variable {rules : ParseRules}

-- ================================================================ going on

/-- The statements of a program that has a derivation are read, and reading
goes on behind the separators that follow it. -/
theorem readProgram_continue (d : Derivation.Body) (before : List Expr) {s : ParseState}
    {point : Span} {spans : List Span} {rest : List Token}
    (h : rules.Due s d.tokens (mark ';' point :: (spans.map (mark ';') ++ rest)) d.depth d.longest
      d.Greedy)
    (hrest : front .endOfInput rest ≠ .punctuation ';') (hadmits : ∀ e ∈ d.exprs, rules.Admits e) :
    ∃ t, rules.readProgram before s.skipSeparators
        = rules.readProgram (d.exprs.reverse ++ before) t
      ∧ t.cursor.Rests ∧ t.cursor.seen = rest ∧ t.depth = s.depth := by
  match d with
  | .done separators =>
    have hseen : s.cursor.seen = (separators ++ point :: spans).map (mark ';') ++ rest := by
      rw [h.seen, List.map_append, List.map_cons, List.append_assoc]
      rfl
    obtain ⟨hpasses, hleft⟩ := Cursor.skipSeparators_passes_of_seen h.rests hseen hrest
    exact ⟨s.skipSeparators, rfl, hpasses.rests, hleft, rfl⟩
  | .more separators statement ds =>
    obtain ⟨t, hread, hdue, hlevel⟩ :=
      readProgram_more before h (by simp [mark]) (hadmits _ List.mem_cons_self)
    obtain ⟨u, hmore, hrests, hseen, hdepth⟩ := readProgram_continue ds (statement.expr :: before)
      hdue hrest fun e he => hadmits e (List.mem_cons_of_mem _ he)
    refine ⟨u, ?_, hrests, hseen, hdepth.trans hlevel⟩
    rw [hread, hmore]
    simp [Derivation.Body.exprs]

-- ===================================================================== marks

/-- Marks are looked at one by one, and the first that is refused ends it. -/
theorem checkMarks_cons (t : Token) (ts : List Token) :
    checkMarks (t :: ts) = checkMarks [t] >>= fun _ => checkMarks ts := by
  simp only [checkMarks]
  split
  · next c _ => cases Policy.checkMark c t.span <;> rfl
  · rfl

/-- Marks that are in order do not keep those behind them from being looked
at. -/
theorem checkMarks_append {ts : List Token} (h : checkMarks ts = .ok ()) (us : List Token) :
    checkMarks (ts ++ us) = checkMarks us := by
  induction ts with
  | nil => rfl
  | cons t ts ih =>
    rw [checkMarks_cons] at h
    obtain ⟨_, hthis, hrest⟩ := bind_eq_ok_iff.1 h
    rw [List.cons_append, checkMarks_cons, hthis]
    exact ih hrest

/-- The first mark that is refused is the same one, further on. -/
theorem checkMarks_map_shift (d : Nat) (ts : List Token) :
    refuse (checkMarks (ts.map (Token.shift d)))
      = (refuse (checkMarks ts)).mapError (ParseFailure.shift d) := by
  induction ts with
  | nil => rfl
  | cons t ts ih =>
    obtain ⟨kind, span⟩ := t
    rw [List.map_cons, checkMarks_cons, checkMarks_cons ⟨kind, span⟩]
    cases kind with
    | punctuation c =>
      simp only [checkMarks, Token.shift, Policy.checkMark]
      split
      · rfl
      · exact ih
    | _ => exact ih

-- ================================================================= two programs

/-- A program starts past the first separators. -/
theorem startOf_spec (tokens : List Token) :
    (startOf tokens).cursor.Rests ∧ (startOf tokens).cursor.kind ≠ .punctuation ';'
      ∧ ∃ spans : List Span, tokens.filter (fun t => !t.isComment)
        = spans.map (mark ';') ++ (startOf tokens).cursor.seen := by
  obtain ⟨hrests, hall, -⟩ := Cursor.ofTokens_spec tokens
  obtain ⟨spans, hpasses, hstop⟩ := Cursor.skipSeparators_passes hrests
  refine ⟨hpasses.rests, fun hkind => ?_, spans, hall ▸ hpasses.seen⟩
  exact absurd (Token.Kind.isMark_iff.2 hkind) (Bool.eq_false_iff.1 hstop)

/-- What is read of a list is aligned with what is read of it further on,
behind anything. -/
theorem aligned_startOf {tokens : List Token} {t : ParseState} {n : Nat}
    (hcursor : t.cursor.Rests) (hdepth : t.depth = 0)
    (hseen : t.cursor.seen = (startOf tokens).cursor.seen.map (Token.shift n))
    (hends : ∃ u ∈ tokens, u.kind.isEnd = true) : (startOf tokens).Aligned n t := by
  obtain ⟨hrests, -, spans, hall⟩ := startOf_spec tokens
  refine ⟨hrests, hcursor, hseen, hdepth, fun _ => ?_⟩
  obtain ⟨u, hu, hend⟩ := hends
  have hcomment : u.isComment = false := Token.Kind.isComment_eq_false_of_isEnd hend
  have hvisible : u ∈ tokens.filter fun t => !t.isComment :=
    List.mem_filter.2 ⟨hu, by rw [hcomment]; rfl⟩
  rw [hall] at hvisible
  rcases List.mem_append.1 hvisible with hmem | hmem
  · obtain ⟨span, -, rfl⟩ := List.mem_map.1 hmem
    cases hend
  · exact ⟨u, hmem, hend⟩

/-- There is a statement, unless the program ends where it starts. -/
theorem readProgram_ne_nil {before es : List Expr} {s : ParseState}
    (h : rules.readProgram before s = .ok es) (hs : before ≠ [] ∨ s.cursor.atEnd = false) :
    es ≠ [] := by
  rw [readProgram_eq] at h
  split at h
  · next hend =>
    cases h
    rcases hs with hbefore | hstart
    · exact mt List.reverse_eq_nil_iff.1 hbefore
    · rw [hstart] at hend
      cases hend
  · obtain ⟨⟨e, t⟩, hok, hrest⟩ := bind_eq_ok_iff.1 h
    have hless := size_lt_of_chain hok
    have hsize := ParseState.size_skipSeparators_le t
    exact readProgram_ne_nil hrest (Or.inl (List.cons_ne_nil _ _))
termination_by s.size

/-- What is visible of two lists with a separator between them. -/
theorem filter_join {us : List Token} (hcomments : ∀ t ∈ us, t.isComment = false) (bs : List Token)
    (point : Span) (n : Nat) :
    (us ++ mark ';' point :: bs.map (Token.shift n)).filter (fun t => !t.isComment)
      = us ++ mark ';' point :: (bs.filter fun t => !t.isComment).map (Token.shift n) := by
  have hus : us.filter (fun t => !t.isComment) = us :=
    List.filter_eq_self.2 fun t ht => by rw [hcomments t ht]; rfl
  rw [List.filter_append, hus, List.filter_cons_of_pos rfl, List.filter_map]
  rfl

/-- Where two lists are joined, reading goes on with the statements of the
second list. -/
theorem readProgram_join {d : Derivation.Program} (hpassing : rules.Passing d)
    (hcomments : ∀ t ∈ d.tokens, t.isComment = false) (bs : List Token) (point : Span) (n : Nat) :
    ∃ t, (startOf (d.tokens ++ mark ';' point :: bs.map (Token.shift n))).cursor.atEnd = false
      ∧ rules.readProgram [] (startOf (d.tokens ++ mark ';' point :: bs.map (Token.shift n)))
        = rules.readProgram (d.first.expr :: d.rest.exprs).reverse t
      ∧ t.cursor.Rests ∧ t.depth = 0
      ∧ t.cursor.seen = (startOf bs).cursor.seen.map (Token.shift n) := by
  obtain ⟨hrests, hstop, spans, hbs⟩ := startOf_spec bs
  have hmarks : (spans.map (mark ';')).map (Token.shift n)
      = (spans.map (Span.shift n)).map (mark ';') := by
    rw [List.map_map, List.map_map]
    rfl
  have hseen := filter_join hcomments bs point n
  rw [hbs, List.map_append, hmarks] at hseen
  have hrest : front .endOfInput ((startOf bs).cursor.seen.map (Token.shift n))
      ≠ .punctuation ';' := by
    rw [Token.front_map_shift, ← Cursor.kind_eq_front hrests]
    exact hstop
  obtain ⟨separators, first, ds⟩ := d
  have hgreedy : (Derivation.Body.more separators first ds).Greedy .endOfInput := hpassing.greedy
  obtain ⟨hdue, hstart⟩ := hpassing.due hseen
    (Derivation.Body.greedy_of_untaken _ hgreedy Derivation.untaken_separator)
  obtain ⟨t, hread, hrestsT, hleft, hdepth⟩ :=
    readProgram_continue _ [] hdue hrest (admits_rootOf_iff.1 hpassing.admits)
  refine ⟨t, hstart, ?_, hrestsT, hdepth, hleft⟩
  rw [List.append_nil] at hread
  exact hread

/-- Two lists of tokens with a separator between them are read as they are on
their own, if the first is a program. What is read of the second is moved with
its tokens. -/
theorem parse_join {us bs : List Token} {finish : Span} {node : Expr} (point : Span) (n : Nat)
    (hcomments : ∀ t ∈ us, t.isComment = false) (hends : ∀ t ∈ us, t.kind ≠ .endOfInput)
    (h : rules.parse (us ++ [⟨.endOfInput, finish⟩]) = .ok node)
    (hend : ∃ t ∈ bs, t.kind.isEnd = true) :
    ∃ es, es ≠ [] ∧ node = rootOf es ∧
      match rules.parse bs with
      | .ok node' => ∃ fs, fs ≠ [] ∧ node' = rootOf fs
        ∧ rules.parse (us ++ mark ';' point :: bs.map (Token.shift n))
          = .ok (rootOf (es ++ fs.map (Expr.shift n)))
      | .error e => (∀ span, e ≠ .grammar ⟨span, .emptyInput⟩) →
        rules.parse (us ++ mark ';' point :: bs.map (Token.shift n)) = .error (e.shift n) := by
  obtain ⟨hmarks, d, rfl, hpassing, rfl⟩ := derivation_of_parse_append hcomments hends h
  refine ⟨d.first.expr :: d.rest.exprs, List.cons_ne_nil _ _, rfl, ?_⟩
  obtain ⟨t, hstart, hread, hrests, hdepth, hseen⟩ := readProgram_join hpassing hcomments bs point n
  -- the marks of the first list are in order, so those of the second one decide
  have hjoined : refuse (checkMarks (d.tokens ++ mark ';' point :: bs.map (Token.shift n)))
      = (refuse (checkMarks bs)).mapError (ParseFailure.shift n) := by
    rw [checkMarks_append hmarks, checkMarks_cons, ← checkMarks_map_shift]
    rfl
  -- behind the joint the cursor sees the second list, moved, at no depth
  have hagrees := readProgram_agrees (Stricter.refl n rules) []
    (d.first.expr :: d.rest.exprs).reverse
    (aligned_startOf hrests hdepth hseen hend)
  rw [parse_eq, parse_eq, hjoined, hstart, hread]
  -- three ways for the second list to fail, and one to be read
  cases refuse (checkMarks bs) with
  | error e =>
    intro _
    rfl
  | ok _ =>
    cases hend' : (startOf bs).cursor.atEnd with
    | true =>
      intro hne
      exact absurd rfl (hne _)
    | false =>
      cases hprogram : rules.readProgram [] (startOf bs) with
      | error e =>
        intro _
        rw [hprogram] at hagrees
        rw [hagrees.of_error]
        rfl
      | ok fs =>
        rw [hprogram] at hagrees
        obtain ⟨all, hall, new, hfs, rfl⟩ := hagrees.of_ok
        obtain rfl : fs = new := hfs
        refine ⟨fs, readProgram_ne_nil hprogram (Or.inr hend'), rfl, ?_⟩
        rw [hall, List.reverse_reverse]
        rfl

end ParseRules

end UiScript
