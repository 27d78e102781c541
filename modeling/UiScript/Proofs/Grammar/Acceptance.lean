/-
Reading a program accepts the grammar: a list of tokens is a program if no
mark in it is refused, and if what stands before the end of the input has a
derivation that is greedy, stays within the limits, and stands for an
expression that is admitted. What is read is that expression.

# Main statements

* `derivation_of_parse`, `parse_of_derivation`: the two directions, for any
  list of tokens; `derivation_of_parse_append` for one that ends once.
* `parse_eq_ok_iff`: both, for a list without comments that ends once.
* `admitted_of_parse`: nothing that the policy refuses is left in a program
  that is read.
-/
import UiScript.Proofs.Grammar.Completeness

namespace UiScript

namespace ParseRules

open Token (mark front)

variable {rules : ParseRules}

-- ==================================================================== marks

theorem checkMark_eq_ok_iff {c : Char} {span : Span} :
    Policy.checkMark c span = .ok () ↔ Policy.isSuspiciousMark c = false := by
  unfold Policy.checkMark
  cases Policy.isSuspiciousMark c <;> simp

/-- The whole list is looked at, whatever of it is read. -/
theorem checkMarks_eq_ok_iff {tokens : List Token} :
    checkMarks tokens = .ok () ↔
      ∀ t ∈ tokens, ∀ c, t.kind = .punctuation c → Policy.isSuspiciousMark c = false := by
  induction tokens with
  | nil => simp [checkMarks]
  | cons t ts ih =>
    rw [checkMarks, List.forall_mem_cons, ← ih]
    split
    · next c hc =>
      rw [hc]
      constructor
      · intro h
        obtain ⟨_, hthis, hrest⟩ := bind_eq_ok_iff.1 h
        refine ⟨?_, hrest⟩
        intro m hm
        cases hm
        exact checkMark_eq_ok_iff.1 hthis
      · intro hboth
        obtain ⟨hthis, hrest⟩ := hboth
        exact bind_eq_ok_iff.2 ⟨(), checkMark_eq_ok_iff.2 (hthis c rfl), hrest⟩
    -- no mark, so nothing is looked at
    · next hother =>
      constructor
      · intro h
        exact ⟨fun c hc => absurd hc (hother c), h⟩
      · intro hboth
        obtain ⟨-, hrest⟩ := hboth
        exact hrest

-- =========================================================== both directions

/-- A derivation that the rules let pass. -/
structure Passing (rules : ParseRules) (d : Derivation.Program) : Prop where
  greedy : d.Greedy
  fits : d.depth ≤ rules.options.maxDepth
  short : d.longest ≤ rules.options.maxChain
  admits : rules.Admits d.expr

/-- What is read as a program has a derivation, up to the end, comments left
out. Of the marks, all of the list is looked at, also behind the end of the
input. -/
theorem derivation_of_parse {tokens : List Token} {node : Expr}
    (h : rules.parse tokens = .ok node) :
    checkMarks tokens = .ok () ∧ ∃ (d : Derivation.Program) (rest : List Token),
      tokens.filter (fun t => !t.isComment) = d.tokens ++ rest
        ∧ front .endOfInput rest = .endOfInput ∧ (∀ t ∈ d.tokens, t.kind.isEnd = false)
        ∧ rules.Passing d ∧ d.expr = node := by
  rw [parse_eq] at h
  obtain ⟨_, hmarks, h⟩ := bind_eq_ok_iff.1 h
  refine ⟨refuse_eq_ok_iff.1 hmarks, ?_⟩
  obtain ⟨hrests, hseen, -⟩ := Cursor.ofTokens_spec tokens
  obtain ⟨spans, hpasses, -⟩ := Cursor.skipSeparators_passes hrests
  -- the first statement is read before the loop begins, behind the separators that lead
  have hskip : rules.Read ⟨Cursor.ofTokens tokens, 0⟩ (startOf tokens) (spans.map (mark ';')) 0 0
      fun _ => True :=
    ⟨hpasses, rfl, Nat.zero_le _, Nat.zero_le _, trivial⟩
  split at h
  · cases h
  · next hstart =>
    obtain ⟨es, hprogram, hok⟩ := bind_eq_ok_iff.1 h
    cases hok
    rw [readProgram_eq, if_neg hstart] at hprogram
    obtain ⟨⟨e, u⟩, hchain, hrest⟩ := bind_eq_ok_iff.1 hprogram
    obtain ⟨d, hread, rfl, hadmits⟩ := chain_sound _ _ _ hskip.ready hchain
    obtain ⟨ds, t, hreads, hend, rfl, hall⟩ := readProgram_sound hread.ready hrest
    have hthis := hskip.trans (hread.trans hreads)
    have hkind : t.cursor.kind = .endOfInput := Token.Kind.isEnd_iff.1 hend
    refine ⟨⟨spans, d, ds⟩, t.cursor.seen, ?_, ?_, hthis.passes.noEnd, ?_, rfl⟩
    · rw [← hseen]
      exact hthis.passes.seen
    · rw [← Cursor.kind_eq_front hreads.passes.rests, hkind]
    · refine ⟨?_, ?_, ?_, ?_⟩
      · rw [Derivation.Program.Greedy, ← hkind]
        exact hthis.greedy.2
      · simpa [Derivation.Program.depth] using hthis.fits
      · simpa [Derivation.Program.longest] using hthis.short
      · exact admits_rootOf_iff.2 (List.forall_mem_cons.2 ⟨hadmits, hall⟩)

/-- Where the tokens start, a program lies ahead, and something is there. -/
theorem ahead_ofTokens {separators : List Span} {first : Derivation.Chain} {ds : Derivation.Body}
    {tokens rest : List Token}
    (hseen : tokens.filter (fun t => !t.isComment)
      = (Derivation.Body.more separators first ds).tokens ++ rest)
    (hgreedy : (Derivation.Body.more separators first ds).Greedy (front .endOfInput rest)) :
    ParseState.Ahead ⟨Cursor.ofTokens tokens, 0⟩ 0 (Derivation.Body.more separators first ds).tokens
        rest (Derivation.Body.more separators first ds).Greedy
      ∧ (startOf tokens).cursor.atEnd = false := by
  obtain ⟨hrests, hall, -⟩ := Cursor.ofTokens_spec tokens
  have hahead : ParseState.Ahead ⟨Cursor.ofTokens tokens, 0⟩ 0
      (Derivation.Body.more separators first ds).tokens rest
      (Derivation.Body.more separators first ds).Greedy :=
    ⟨hrests, hall.trans hseen, rfl, hgreedy⟩
  obtain ⟨-, -, hstarts⟩ := ParseState.Ahead.skip_statement hahead
  exact ⟨hahead, hstarts.isEnd_eq_false⟩

/-- Where the tokens start, all of a program is due, and something is there. -/
theorem Passing.due {separators : List Span} {first : Derivation.Chain} {ds : Derivation.Body}
    (h : rules.Passing ⟨separators, first, ds⟩) {tokens rest : List Token}
    (hseen : tokens.filter (fun t => !t.isComment)
      = (Derivation.Body.more separators first ds).tokens ++ rest)
    (hgreedy : (Derivation.Body.more separators first ds).Greedy (front .endOfInput rest)) :
    rules.Due ⟨Cursor.ofTokens tokens, 0⟩ (Derivation.Body.more separators first ds).tokens rest
        (Derivation.Body.more separators first ds).depth
        (Derivation.Body.more separators first ds).longest
        (Derivation.Body.more separators first ds).Greedy
      ∧ (startOf tokens).cursor.atEnd = false := by
  obtain ⟨hahead, hstart⟩ := ahead_ofTokens hseen hgreedy
  have hfits : 0 + max first.depth ds.depth ≤ rules.options.maxDepth := by
    rw [Nat.zero_add]
    exact h.fits
  exact ⟨⟨hahead.rests, hahead.seen, hfits, h.short, hahead.greedy⟩, hstart⟩

/-- A program that has a derivation is read under any rules, unless one of the
checks fails. -/
theorem parse_inspected {d : Derivation.Program} {tokens rest : List Token} (hgreedy : d.Greedy)
    (horder : Orderly d.expr) (hmarks : checkMarks tokens = .ok ())
    (hseen : tokens.filter (fun t => !t.isComment) = d.tokens ++ rest)
    (hrest : front .endOfInput rest = .endOfInput) :
    rules.Inspected d.checks (rules.parse tokens) d.expr := by
  obtain ⟨separators, first, ds⟩ := d
  obtain ⟨hahead, hstart⟩ := ahead_ofTokens hseen (by rw [hrest]; exact hgreedy)
  rw [parse_eq]
  refine .after (refuse_eq_ok_iff.2 hmarks) ?_
  rw [hstart, if_neg Bool.false_ne_true]
  exact (readProgram_inspected _ [] hahead hrest (orderly_rootOf_iff.1 horder)).before rfl

/-- Where a program is within the limits, the policy decides whether it is
read. -/
theorem inspect_of_fits {d : Derivation.Program} (hfits : d.depth ≤ rules.options.maxDepth)
    (hshort : d.longest ≤ rules.options.maxChain) :
    rules.inspect d.checks = rules.review d.roles := by
  rw [← d.words_checks]
  refine inspect_eq_review fun load hload => admitLoad_eq_ok ?_
  exact (d.measured _ _).excess_eq_none ⟨hfits, hshort⟩ load hload

/-- A program that has a derivation is read under any rules that have the
limits, unless one of its words is refused. -/
theorem Passing.parse_comes {rules rules' : ParseRules} {d : Derivation.Program}
    {tokens rest : List Token} (h : rules.Passing d)
    (hdepth : rules'.options.maxDepth = rules.options.maxDepth)
    (hchain : rules'.options.maxChain = rules.options.maxChain)
    (hmarks : checkMarks tokens = .ok ())
    (hseen : tokens.filter (fun t => !t.isComment) = d.tokens ++ rest)
    (hrest : front .endOfInput rest = .endOfInput) :
    rules'.Comes d.roles (rules'.parse tokens) d.expr := by
  have hread : rules'.Inspected d.checks (rules'.parse tokens) d.expr :=
    parse_inspected h.greedy h.admits.orderly hmarks hseen hrest
  unfold Inspected at hread
  rw [Comes, hread, inspect_of_fits (hdepth ▸ h.fits) (hchain ▸ h.short)]

/-- What has a derivation, up to the end, comments left out, is read as a
program. What stands behind the first end of the input is not read, so it may
be anything with marks in order. -/
theorem parse_of_derivation {tokens rest : List Token} {d : Derivation.Program}
    (hmarks : checkMarks tokens = .ok ())
    (hseen : tokens.filter (fun t => !t.isComment) = d.tokens ++ rest)
    (hrest : front .endOfInput rest = .endOfInput) (h : rules.Passing d) :
    rules.parse tokens = .ok d.expr :=
  (h.parse_comes rfl rfl hmarks hseen hrest).eq_ok
    (review_eq_ok_of_admits d.roles_expr h.admits)

-- =================================================================== a program

/-- `vstack { text("Hi") }.padding(:small)` -/
def smallGreeting : Derivation.Program :=
  ⟨[], .mk
    (.call (.mk "vstack" ⟨0, 6⟩ .none
      (.fenced .braces ⟨7, 8⟩
        (.more []
          (.mk (.call (.mk "text" ⟨9, 13⟩
            (.list ⟨13, 14⟩ (.last (.positional (.mk (.literal (.string "Hi") ⟨14, 18⟩) .none)))
              ⟨18, 19⟩) .none)) .none)
          (.done []))
        ⟨20, 21⟩)))
    (.more ⟨21, 22⟩
      (.mk "padding" ⟨22, 29⟩
        (.list ⟨29, 30⟩ (.last (.positional (.mk (.literal (.symbol "small") ⟨30, 36⟩) .none)))
          ⟨36, 37⟩) .none) .none),
    .done []⟩

/-- Strings are looked at, and no name is listed. -/
def strictly : ParseRules := ⟨.denylistOnly, ⟨64, 128, true⟩⟩

theorem smallGreeting_passing : strictly.Passing smallGreeting :=
  ⟨by decide, by decide, by decide, by decide⟩

-- ================================================================== acceptance

theorem filter_visible {tokens : List Token} (finish : Span)
    (h : ∀ t ∈ tokens, t.isComment = false) :
    (tokens ++ [⟨.endOfInput, finish⟩] : List Token).filter (fun t => !t.isComment)
      = tokens ++ [⟨.endOfInput, finish⟩] := by
  rw [List.filter_eq_self]
  intro t ht
  rcases List.mem_append.1 ht with ht | ht
  · rw [h t ht, Bool.not_false]
  · rw [List.mem_singleton.1 ht]
    rfl

/-- What is read as a program, up to the one end of the list, is what has a
derivation. -/
theorem derivation_of_parse_append {tokens : List Token} {finish : Span} {node : Expr}
    (hcomments : ∀ t ∈ tokens, t.isComment = false) (hends : ∀ t ∈ tokens, t.kind ≠ .endOfInput)
    (h : rules.parse (tokens ++ [⟨.endOfInput, finish⟩]) = .ok node) :
    checkMarks tokens = .ok () ∧ ∃ d : Derivation.Program,
      d.tokens = tokens ∧ rules.Passing d ∧ d.expr = node := by
  obtain ⟨hmarks, d, rest, hseen, hrest, hnoEnd, hpassing, hnode⟩ := derivation_of_parse h
  refine ⟨?_, d, ?_, hpassing, hnode⟩
  · refine checkMarks_eq_ok_iff.2 fun t ht => ?_
    exact checkMarks_eq_ok_iff.1 hmarks t (List.mem_append_left _ ht)
  · rw [filter_visible finish hcomments] at hseen
    -- neither list goes past the end of the input, so both end there
    rcases List.append_eq_append_iff.1 hseen with ⟨us, hd, hus⟩ | ⟨us, htokens, hus⟩
    · cases us with
      | nil => simpa using hd
      | cons u us =>
        obtain ⟨rfl, -⟩ := List.cons.inj hus
        have hmem : (⟨.endOfInput, finish⟩ : Token) ∈ d.tokens := by simp [hd]
        cases hnoEnd _ hmem
    · cases us with
      | nil => simpa using htokens.symm
      | cons u us =>
        rw [hus] at hrest
        exact absurd hrest (hends u (by simp [htokens]))

/-- The grammar is what is accepted, and its tree is what is built: a list
without comments that ends once is read exactly if no mark in it is refused
and what stands before the end has a derivation that the rules let pass. -/
theorem parse_eq_ok_iff {tokens : List Token} {finish : Span} {node : Expr}
    (hcomments : ∀ t ∈ tokens, t.isComment = false)
    (hends : ∀ t ∈ tokens, t.kind ≠ .endOfInput) :
    rules.parse (tokens ++ [⟨.endOfInput, finish⟩]) = .ok node ↔
      (∀ t ∈ tokens, ∀ c, t.kind = .punctuation c → Policy.isSuspiciousMark c = false)
        ∧ ∃ d : Derivation.Program, d.tokens = tokens ∧ rules.Passing d ∧ d.expr = node := by
  constructor
  · intro h
    obtain ⟨hmarks, hderived⟩ := derivation_of_parse_append hcomments hends h
    exact ⟨checkMarks_eq_ok_iff.1 hmarks, hderived⟩
  · intro hboth
    obtain ⟨hmarks, d, rfl, hpassing, rfl⟩ := hboth
    refine parse_of_derivation ?_ (filter_visible finish hcomments) rfl hpassing
    refine checkMarks_eq_ok_iff.2 fun t ht => ?_
    rcases List.mem_append.1 ht with ht | ht
    · exact hmarks t ht
    · rw [List.mem_singleton.1 ht]
      intro c hc
      cases hc

/-- The program is read, from tokens among which there is no comment and no
end. -/
theorem parse_smallGreeting :
    (∀ t ∈ smallGreeting.tokens, t.isComment = false)
      ∧ (∀ t ∈ smallGreeting.tokens, t.kind ≠ .endOfInput)
      ∧ strictly.parse (smallGreeting.tokens ++ [⟨.endOfInput, ⟨37, 37⟩⟩])
        = .ok smallGreeting.expr := by
  have hmarks := checkMarks_eq_ok_iff.1 (rfl : checkMarks smallGreeting.tokens = .ok ())
  refine ⟨by decide, by decide, ?_⟩
  exact (parse_eq_ok_iff (by decide) (by decide)).2
    ⟨hmarks, smallGreeting, rfl, smallGreeting_passing, rfl⟩

-- =================================================================== admission

/-- Whatever the tokens are, nothing that the policy refuses is left in a
program that is read: no name that is called, at any depth, no mark anywhere
in the list, and, if strings are looked at, no string. -/
theorem admitted_of_parse {tokens : List Token} {node : Expr}
    (h : rules.parse tokens = .ok node) :
    (∀ c ∈ node.calls, rules.policy.violation? c.method = none)
      ∧ (∀ t ∈ tokens, ∀ c, t.kind = .punctuation c → Policy.isSuspiciousMark c = false)
      ∧ (rules.options.strictLiterals = true →
        ∀ text, .string text ∈ node.literals → Policy.isSuspiciousLiteral text = false) := by
  obtain ⟨hmarks, d, rest, -, -, -, hpassing, rfl⟩ := derivation_of_parse h
  refine ⟨?_, checkMarks_eq_ok_iff.1 hmarks, ?_⟩
  · intro c hc
    exact (hpassing.admits.calls c hc).1
  · intro hstrict text htext
    exact hpassing.admits.literals _ htext hstrict text rfl

/-- A list with a comment, and with a denied name past the end of the input,
which is not read. -/
theorem admitted_of_parse_smallGreeting :
    let tokens : List Token := ⟨.comment "# hi", ⟨0, 4⟩⟩ :: (smallGreeting.tokens
      ++ [⟨.endOfInput, ⟨37, 37⟩⟩, ⟨.identifier "eval", ⟨37, 41⟩⟩])
    strictly.parse tokens = .ok smallGreeting.expr
      ∧ (∀ c ∈ smallGreeting.expr.calls, strictly.policy.violation? c.method = none)
      ∧ (∀ t ∈ tokens, ∀ c, t.kind = .punctuation c → Policy.isSuspiciousMark c = false)
      ∧ (strictly.options.strictLiterals = true → ∀ text,
        .string text ∈ smallGreeting.expr.literals → Policy.isSuspiciousLiteral text = false) := by
  intro tokens
  have hparse : strictly.parse tokens = .ok smallGreeting.expr :=
    parse_of_derivation rfl rfl rfl smallGreeting_passing
  exact ⟨hparse, admitted_of_parse hparse⟩

end ParseRules

end UiScript
