/-
What is read is derived. Whenever a production succeeds, the tokens that it
has passed have a derivation, which stands for what the production gives
back, stays within the limits, and is greedy with respect to the token that
the production stopped at.

Nothing is assumed about the list of tokens: it may hold comments, it may
have no end, and its names need not look like names. A derivation only ever
mentions what the cursor sees.

# The induction

The recursion of the parser goes through `chain` alone: every other
production either calls it on less, or calls itself on less. `ChainSound` is
therefore the only hypothesis that is carried around; each lemma takes it
for the states below some size, and gives its own production at that size.

# Main statements

* `chain_sound`: an expression that is read has a derivation.
* `readProgram_sound`: so have the statements of a program.
-/
import UiScript.Proofs.Grammar.Admission
import UiScript.Proofs.Grammar.Derivation
import UiScript.Proofs.Reading.Productions

namespace UiScript

namespace ParseRules

open UiScript.Derivation (Fence)
open Token (mark front)

variable (rules : ParseRules)

-- ============================================================ what was read

/-- A state from which reading may start: the cursor rests, and no more
delimiters are open than may be. -/
structure Ready (s : ParseState) : Prop where
  rests : s.cursor.Rests
  shallow : s.depth ≤ rules.options.maxDepth

/-- From `s` to `t` the tokens `ts` were read. They open `depth` delimiters at
once and chain `longest` calls at most, and what was read is greedy before the
token under `t`. -/
structure Read (s t : ParseState) (ts : List Token) (depth longest : Nat)
    (greedy : Token.Kind → Prop) : Prop where
  passes : s.cursor.Passes ts t.cursor
  level : t.depth = s.depth
  fits : s.depth + depth ≤ rules.options.maxDepth
  short : longest ≤ rules.options.maxChain
  greedy : greedy t.cursor.kind

variable {rules}

/-- Reading leaves a state from which it may go on: no delimiter is left open. -/
theorem Read.ready {s t : ParseState} {ts : List Token} {depth longest : Nat}
    {greedy : Token.Kind → Prop} (h : rules.Read s t ts depth longest greedy) : rules.Ready t := by
  refine ⟨h.passes.rests, ?_⟩
  have := h.fits
  have := h.level
  omega

/-- Nothing is read. -/
theorem Ready.read_nil {s : ParseState} (h : rules.Ready s) {greedy : Token.Kind → Prop}
    (hgreedy : greedy s.cursor.kind) : rules.Read s s [] 0 0 greedy :=
  ⟨.refl h.rests, rfl, h.shallow, Nat.zero_le _, hgreedy⟩

/-- A single token is read. -/
theorem Ready.read_token {s : ParseState} {kind : Token.Kind} (h : rules.Ready s)
    (hkind : s.cursor.kind = kind) (hend : s.cursor.atEnd = false) :
    rules.Read s s.advance [⟨kind, s.cursor.span⟩] 0 0 fun _ => True := by
  subst hkind
  exact ⟨Cursor.advance_passes h.rests hend, rfl, h.shallow, Nat.zero_le _, trivial⟩

/-- What is read first is greedy before what is read next. -/
theorem Read.trans {s t u : ParseState} {ts us : List Token} {d₁ d₂ l₁ l₂ : Nat}
    {g₁ g₂ : Token.Kind → Prop} (h : rules.Read s t ts d₁ l₁ g₁) (k : rules.Read t u us d₂ l₂ g₂) :
    rules.Read s u (ts ++ us) (max d₁ d₂) (max l₁ l₂) fun next => g₁ (front next us) ∧ g₂ next := by
  refine ⟨h.passes.trans k.passes, k.level.trans h.level, ?_, Nat.max_le.2 ⟨h.short, k.short⟩, ?_,
    k.greedy⟩
  · have := h.fits
    have := k.fits
    have := h.level
    omega
  · rw [← k.passes.kind_eq h.passes.rests]
    exact h.greedy

/-- What is read between an opening token and a closing one is one level
deeper. -/
theorem Read.delimited {s t u : ParseState} {opening closing : Token.Kind} {opened : Span}
    {ts : List Token} {depth longest : Nat} {greedy : Token.Kind → Prop} (hs : rules.Ready s)
    (hopening : s.cursor.kind = opening) (hend : s.cursor.atEnd = false)
    (hopen : s.advance.open? rules opened = .ok t) (h : rules.Read t u ts depth longest greedy)
    (hclosing : u.cursor.kind = closing) (hclose : u.cursor.atEnd = false) :
    rules.Read s u.advance.close
      (⟨opening, s.cursor.span⟩ :: (ts ++ [⟨closing, u.cursor.span⟩])) (depth + 1) longest
      fun _ => greedy closing := by
  subst hopening hclosing
  obtain ⟨rfl, -⟩ := ParseState.open?_eq_ok hopen
  have hfirst : s.cursor.Passes [s.cursor.current] s.cursor.advance :=
    Cursor.advance_passes hs.rests hend
  have hlast := Cursor.advance_passes h.passes.rests hclose
  refine ⟨hfirst.trans (h.passes.trans hlast), ?_, ?_, h.short, h.greedy⟩
  · have hlevel : u.depth = s.depth + 1 := h.level
    show u.depth - 1 = s.depth
    omega
  · have hfits : s.depth + 1 + depth ≤ rules.options.maxDepth := h.fits
    omega

/-- Separators are read. -/
theorem Ready.read_separators {s : ParseState} (h : rules.Ready s) : ∃ spans : List Span,
    rules.Read s s.skipSeparators (spans.map (mark ';')) 0 0 fun _ => True := by
  obtain ⟨spans, hpasses, -⟩ := Cursor.skipSeparators_passes h.rests
  exact ⟨spans, hpasses, rfl, h.shallow, Nat.zero_le _, trivial⟩

/-- A state with one more delimiter open is ready. -/
theorem Ready.open {s t : ParseState} {opened : Span} (hs : rules.Ready s)
    (hend : s.cursor.atEnd = false) (hopen : s.advance.open? rules opened = .ok t) :
    rules.Ready t := by
  obtain ⟨rfl, hdeep⟩ := ParseState.open?_eq_ok hopen
  exact ⟨(Cursor.advance_passes hs.rests hend).rests, hdeep⟩

-- ================================================================== tokens

/-- A key stands at the cursor exactly if what is ahead starts with one. -/
theorem keyAt_eq_none_iff {c : Cursor} {ts rest : List Token} (hc : c.Rests)
    (hseen : c.seen = ts ++ rest) (hts : ts ≠ []) :
    keyAt c = none ↔ ¬ Derivation.StartsWithKey (front .endOfInput rest) ts := by
  match ts, hts with
  | ⟨kind, span⟩ :: us, _ =>
    have hkind : c.kind = kind := by
      rw [Cursor.kind_eq_front hc, hseen]
      rfl
    have hpeek : c.peekKind = front (front .endOfInput rest) us := by
      rw [Cursor.peekKind_eq hc, hseen, List.cons_append, List.drop_one, List.tail_cons,
        Token.front_append]
    unfold keyAt
    rw [hkind, hpeek]
    cases kind with
    | identifier name => simp [Derivation.StartsWithKey, Token.Kind.isName, Token.Kind.isMark_iff]
    | _ => simp [Derivation.StartsWithKey, Token.Kind.isName]

/-- The delimiter that a fence is. -/
def fenceDelimiter : Fence → Delimiter
  | .keywords => .keywords
  | .braces => .braces

/-- The closing mark of a fence is what closes the delimiter that it is. -/
theorem closesAt_fenceDelimiter_iff {fence : Fence} {c : Cursor} :
    (fenceDelimiter fence).closesAt c = true ↔ c.kind = fence.closing := by
  cases fence with
  | keywords => exact Token.Kind.isKeyword_iff
  | braces => exact Token.Kind.isMark_iff

/-- Where a block starts, the tokens do not end. -/
theorem atEnd_eq_false_of_fence {c : Cursor} {fence : Fence} (h : c.kind = fence.opening) :
    c.atEnd = false := by
  rw [Cursor.atEnd, h, fence.isEnd_opening]

-- ================================================================ arguments

variable (rules)

/-- An expression that is read from `s` has a derivation. -/
def ChainSound (s : ParseState) : Prop :=
  ∀ e t, rules.Ready s → rules.chain s = .ok (e, t) →
    ∃ d : Derivation.Chain,
      rules.Read s t d.tokens d.depth d.longest d.Greedy ∧ d.expr = e ∧ rules.Admits e

variable {rules}
variable {n : Nat}

/-- An argument has a derivation, and keeps those before it in order: a key
was looked for among theirs, and without a key there was none. -/
theorem argument_sound (ih : ∀ s, s.size < n → rules.ChainSound s) {s t : ParseState}
    {before : List Argument} {arg : Argument} (hn : s.size < n) (hs : rules.Ready s)
    (hbefore : InOrder before.reverse) (h : rules.argument before s = .ok (arg, t)) :
    ∃ d : Derivation.Argument, rules.Read s t d.tokens d.depth d.longest d.Greedy
      ∧ d.value = arg ∧ rules.Admits arg.value ∧ InOrder (before.reverse ++ [arg]) := by
  cases hkey : keyAt s.cursor with
  | some key =>
    rw [argument_of_keyAt rules hkey] at h
    split at h
    · cases h
    · next hnew =>
      obtain ⟨⟨value, u⟩, hchain, hok⟩ := bind_eq_ok_iff.1 h
      cases hok
      obtain ⟨hkind, -⟩ := keyAt_eq_some_iff.1 hkey
      have hend := atEnd_eq_false_of_keyAt hkey
      -- the key and its colon are passed one after the other, and then a chain
      have hname := hs.read_token hkind hend
      have hcolon := kind_advance_of_keyAt hs.rests hkey
      have hend' : s.advance.cursor.atEnd = false := by
        rw [Cursor.atEnd, hcolon]
        rfl
      have hmark := hname.ready.read_token hcolon hend'
      have hsize := ParseState.size_advance_lt hend
      have hsize' := ParseState.size_advance_lt hend'
      obtain ⟨d, hread, rfl, hadmits⟩ := ih _ (by omega) _ _ hmark.ready hchain
      have hall := (hname.trans hmark).trans hread
      refine ⟨.named key s.cursor.span s.advance.cursor.span d, ?_, rfl, hadmits, ?_⟩
      · refine ⟨hall.passes, hall.level, ?_, ?_, hread.greedy⟩
        · simpa [Derivation.Argument.depth] using hall.fits
        · simpa [Derivation.Argument.longest] using hall.short
      · refine inOrder_append_named_iff.2 ⟨hbefore, fun hmem => hnew ?_⟩
        rw [argumentKeys_reverse, List.mem_reverse] at hmem
        exact List.contains_iff_mem.2 hmem
  | none =>
    -- no key: a name in front of the chain has no colon behind it, so the derivation is greedy
    rw [argument_of_no_key rules hkey] at h
    split at h
    · cases h
    · next hempty =>
      obtain ⟨⟨value, u⟩, hchain, hok⟩ := bind_eq_ok_iff.1 h
      cases hok
      obtain ⟨d, hread, rfl, hadmits⟩ := ih s hn _ _ hs hchain
      refine ⟨.positional d, ?_, rfl, hadmits, ?_⟩
      · refine ⟨hread.passes, hread.level, hread.fits, hread.short, ?_, hread.greedy⟩
        rw [Cursor.kind_eq_front hread.passes.rests]
        exact (keyAt_eq_none_iff hs.rests hread.passes.seen d.tokens_ne_nil).1 hkey
      · refine inOrder_append_positional_iff.2 ⟨hbefore, ?_⟩
        rw [argumentKeys_reverse]
        simpa using hempty

/-- A list of arguments has a derivation, behind the arguments that were read
before. It is read by calling itself on less, so the induction is on what is
ahead. -/
theorem argumentList_sound (ih : ∀ s, s.size < n → rules.ChainSound s) {s t : ParseState}
    {before args : List Argument} (hn : s.size < n) (hs : rules.Ready s)
    (hbefore : InOrder before.reverse) (h : rules.argumentList before s = .ok (args, t)) :
    ∃ d : Derivation.ArgumentList, rules.Read s t d.tokens d.depth d.longest d.Greedy
      ∧ args = before.reverse ++ d.values ∧ (∀ a ∈ d.values, rules.Admits a.value)
      ∧ InOrder args := by
  rw [argumentList_eq] at h
  split at h
  · cases h
    refine ⟨.none, hs.read_nil trivial, ?_, ?_, hbefore⟩
    · simp [Derivation.ArgumentList.values]
    · simp [Derivation.ArgumentList.values]
  · obtain ⟨⟨arg, u⟩, harg, hrest⟩ := bind_eq_ok_iff.1 h
    obtain ⟨d, hread, rfl, hadmits, horder⟩ := argument_sound ih hn hs hbefore harg
    rw [← List.reverse_cons] at horder
    dsimp only at hrest
    split at hrest
    -- a comma: what is read behind it is a list again, perhaps an empty one
    · next hcomma =>
      have hend := Cursor.atEnd_eq_false_of_atMark hcomma
      have hmark := hread.ready.read_token (Token.Kind.isMark_iff.1 hcomma) hend
      have hsize := size_lt_of_argument harg
      have hsize' := ParseState.size_advance_lt hend
      obtain ⟨ds, hreads, rfl, hall, horder'⟩ :=
        argumentList_sound ih (by omega) hmark.ready horder hrest
      have hthis := hread.trans (hmark.trans hreads)
      refine ⟨.more d u.cursor.span ds, ?_, ?_, ?_, horder'⟩
      · refine ⟨hthis.passes, hthis.level, ?_, ?_, hthis.greedy.1, hthis.greedy.2.2⟩
        · simpa [Derivation.ArgumentList.depth] using hthis.fits
        · simpa [Derivation.ArgumentList.longest] using hthis.short
      · simp [Derivation.ArgumentList.values]
      · intro a ha
        rcases List.mem_cons.1 ha with rfl | ha
        · exact hadmits
        · exact hall a ha
    · cases hrest
      refine ⟨.last d, hread, ?_, ?_, horder⟩
      · simp [Derivation.ArgumentList.values]
      · intro a ha
        rw [List.mem_singleton.1 ha]
        exact hadmits
termination_by s.size

/-- Arguments have a derivation, also when they are left out. -/
theorem arguments_sound (ih : ∀ s, s.size < n → rules.ChainSound s) {s t : ParseState}
    {args : List Argument} (hn : s.size < n) (hs : rules.Ready s)
    (h : rules.arguments s = .ok (args, t)) :
    ∃ d : Derivation.Arguments, rules.Read s t d.tokens d.depth d.longest d.Greedy
      ∧ d.values = args ∧ (∀ a ∈ args, rules.Admits a.value) ∧ InOrder args := by
  rw [arguments_eq] at h
  split at h
  · next hmark =>
    obtain ⟨u, hopen, h⟩ := bind_eq_ok_iff.1 h
    obtain ⟨⟨items, v⟩, hitems, h⟩ := bind_eq_ok_iff.1 h
    obtain ⟨w, hclose, h⟩ := bind_eq_ok_iff.1 h
    cases h
    obtain ⟨rfl, hcloses⟩ := ParseState.expectClosing_eq_ok hclose
    have hend := Cursor.atEnd_eq_false_of_atMark hmark
    have hsize := ParseState.size_lt_of_open? hend hopen
    have hnil : InOrder ([] : List Argument).reverse := inOrder_nil
    obtain ⟨d, hread, rfl, hadmits, horder⟩ :=
      argumentList_sound ih (by omega) (hs.open hend hopen) hnil hitems
    have hthis := hread.delimited hs (Token.Kind.isMark_iff.1 hmark) hend hopen
      (Token.Kind.isMark_iff.1 hcloses) (Cursor.atEnd_eq_false_of_atMark hcloses)
    exact ⟨.list s.cursor.span d v.cursor.span, hthis, rfl, hadmits, horder⟩
  · next hmark =>
    cases h
    refine ⟨.none, hs.read_nil ?_, rfl, by simp, inOrder_nil⟩
    intro hkind
    exact hmark (Token.Kind.isMark_iff.2 hkind)

-- =================================================================== blocks

/-- Separators, a statement and what follows it. -/
theorem Read.statement {s t u v : ParseState} {spans : List Span} {d : Derivation.Chain}
    {ds : Derivation.Body} (h : rules.Read s t (spans.map (mark ';')) 0 0 fun _ => True)
    (hfirst : rules.Read t u d.tokens d.depth d.longest d.Greedy)
    (hrest : rules.Read u v ds.tokens ds.depth ds.longest ds.Greedy) :
    let body := Derivation.Body.more spans d ds
    rules.Read s v body.tokens body.depth body.longest body.Greedy := by
  have hthis := h.trans (hfirst.trans hrest)
  refine ⟨hthis.passes, hthis.level, ?_, ?_, hthis.greedy.2⟩
  · simpa [Derivation.Body.depth] using hthis.fits
  · simpa [Derivation.Body.longest] using hthis.short

/-- The statements of a block have a derivation, which ends before the closing
mark. -/
theorem statements_sound (ih : ∀ s, s.size < n → rules.ChainSound s) {fence : Fence}
    {opened : Span} {s t : ParseState} {before es : List Expr} (hn : s.size < n)
    (hs : rules.Ready s)
    (h : rules.statements (fenceDelimiter fence) opened before s = .ok (es, t)) :
    ∃ d : Derivation.Body, rules.Read s t d.tokens d.depth d.longest d.Greedy
      ∧ es = before.reverse ++ d.exprs ∧ (∀ e ∈ d.exprs, rules.Admits e)
      ∧ t.cursor.kind = fence.closing := by
  obtain ⟨spans, hskip⟩ := hs.read_separators
  have hsize := ParseState.size_skipSeparators_le s
  rw [statements_eq] at h
  split at h
  · next hcloses =>
    cases h
    refine ⟨.done spans, hskip, ?_, ?_, closesAt_fenceDelimiter_iff.1 hcloses⟩
    · simp [Derivation.Body.exprs]
    · simp [Derivation.Body.exprs]
  · split at h
    · cases h
    · obtain ⟨⟨e, u⟩, hchain, hrest⟩ := bind_eq_ok_iff.1 h
      have hless := size_lt_of_chain hchain
      obtain ⟨d, hread, rfl, hadmits⟩ := ih _ (by omega) _ _ hskip.ready hchain
      obtain ⟨ds, hreads, rfl, hall, hstop⟩ :=
        statements_sound ih (by omega) hread.ready hrest
      refine ⟨.more spans d ds, hskip.statement hread hreads, ?_, ?_, hstop⟩
      · simp [Derivation.Body.exprs]
      · intro e he
        rcases List.mem_cons.1 he with rfl | he
        · exact hadmits
        · exact hall e he
termination_by s.size

/-- A block between marks has a derivation, with the statements between them. -/
theorem body_sound (ih : ∀ s, s.size < n → rules.ChainSound s) (fence : Fence)
    {s t : ParseState} {b : Block} (hn : s.size < n) (hs : rules.Ready s)
    (hkind : s.cursor.kind = fence.opening) (hend : s.cursor.atEnd = false)
    (h : rules.body (fenceDelimiter fence) s hend = .ok (b, t)) :
    ∃ d : Derivation.Block, rules.Read s t d.tokens d.depth d.longest d.Greedy
      ∧ d.value = some b ∧ ∀ e ∈ b.statements, rules.Admits e := by
  rw [body_eq] at h
  obtain ⟨u, hopen, h⟩ := bind_eq_ok_iff.1 h
  obtain ⟨⟨es, v⟩, hstatements, h⟩ := bind_eq_ok_iff.1 h
  cases h
  have hsize := ParseState.size_lt_of_open? hend hopen
  obtain ⟨d, hread, rfl, hadmits, hcloses⟩ :=
    statements_sound ih (by omega) (hs.open hend hopen) hstatements
  have hend' : v.cursor.atEnd = false :=
    Delimiter.atEnd_eq_false_of_closesAt (closesAt_fenceDelimiter_iff.2 hcloses)
  have hthis := hread.delimited hs hkind hend hopen hcloses hend'
  exact ⟨.fenced fence s.cursor.span d v.cursor.span, hthis, rfl, hadmits⟩

/-- What opens a block is what its fence says. -/
theorem block_of_fence {s : ParseState} {fence : Fence} (h : s.cursor.kind = fence.opening) :
    rules.block s = rules.body (fenceDelimiter fence) s (atEnd_eq_false_of_fence h) >>= fun p =>
      .ok (some p.1, p.2) := by
  cases fence with
  | keywords => exact block_of_keyword rules (Token.Kind.isKeyword_iff.2 h)
  | braces =>
    refine block_of_mark rules ?_ (Token.Kind.isMark_iff.2 h)
    rw [Cursor.atKeyword, h]
    rfl

/-- Where no block starts, none is read. -/
theorem block_of_no_fence {s : ParseState} (h : ∀ fence : Fence, s.cursor.kind ≠ fence.opening) :
    rules.block s = .ok (none, s) := by
  refine block_of_other rules ?_ ?_
  · exact Bool.eq_false_iff.2 fun hk => h .keywords (Token.Kind.isKeyword_iff.1 hk)
  · exact Bool.eq_false_iff.2 fun hm => h .braces (Token.Kind.isMark_iff.1 hm)

/-- A block has a derivation, also when it is left out: then no opening mark
is ahead. -/
theorem block_sound (ih : ∀ s, s.size < n → rules.ChainSound s) {s t : ParseState}
    {b : Option Block} (hn : s.size < n) (hs : rules.Ready s)
    (h : rules.block s = .ok (b, t)) :
    ∃ d : Derivation.Block, rules.Read s t d.tokens d.depth d.longest d.Greedy
      ∧ d.value = b ∧ ∀ b', b = some b' → ∀ e ∈ b'.statements, rules.Admits e := by
  by_cases hfence : ∃ fence : Fence, s.cursor.kind = fence.opening
  · obtain ⟨fence, hkind⟩ := hfence
    rw [block_of_fence hkind] at h
    obtain ⟨⟨b', u⟩, hbody, hok⟩ := bind_eq_ok_iff.1 h
    cases hok
    obtain ⟨d, hread, hvalue, hadmits⟩ := body_sound ih fence hn hs hkind _ hbody
    refine ⟨d, hread, hvalue, ?_⟩
    intro _ hsome
    cases hsome
    exact hadmits
  -- nothing is read, and so no fence may be ahead
  · have hnone : ∀ fence : Fence, s.cursor.kind ≠ fence.opening :=
      fun fence hkind => hfence ⟨fence, hkind⟩
    rw [block_of_no_fence hnone] at h
    cases h
    exact ⟨.none, hs.read_nil hnone, rfl, nofun⟩

-- ============================================================ calls, chains

/-- The last token that was passed lies right behind. -/
theorem previousSpan_of_passes {c d : Cursor} {ts : List Token} (h : c.Passes ts d)
    (hts : ts ≠ []) : d.previousSpan = Derivation.lastSpan ts := by
  rw [Cursor.previousSpan_eq, h.behind, Derivation.lastSpan]
  obtain ⟨us, t, rfl⟩ := ts.eq_nil_or_concat.resolve_left hts
  simp

/-- A call has a derivation, and its name is one that the rules admit. The
receiver is taken as it is: what is known of it carries over to the call. -/
theorem call_sound (ih : ∀ s, s.size < n → rules.ChainSound s) {receiver : Option Expr}
    {s t : ParseState} {c : Call} (hn : s.size ≤ n) (hs : rules.Ready s)
    (h : rules.call receiver s = .ok (c, t)) :
    ∃ d : Derivation.Call, rules.Read s t d.tokens d.depth d.longest d.Greedy
      ∧ d.on receiver = c
      ∧ ((∀ r, receiver = some r → rules.Admits r) → rules.Admits (.call c)) := by
  by_cases hname : ∃ name, s.cursor.kind = .identifier name
  · obtain ⟨name, hkind⟩ := hname
    rw [call_of_identifier rules receiver hkind] at h
    obtain ⟨_, hrefuse, h⟩ := bind_eq_ok_iff.1 h
    obtain ⟨⟨args, u⟩, hargs, h⟩ := bind_eq_ok_iff.1 h
    obtain ⟨⟨b, v⟩, hblock, h⟩ := bind_eq_ok_iff.1 h
    cases h
    have hend := atEnd_eq_false_of_identifier hkind
    have hsize := ParseState.size_advance_lt hend
    have hsize' := size_le_of_arguments hargs
    have hfirst := hs.read_token hkind hend
    obtain ⟨da, hreadA, rfl, hadmitsA, horder⟩ :=
      arguments_sound ih (by omega) hfirst.ready hargs
    obtain ⟨db, hreadB, rfl, hadmitsB⟩ := block_sound ih (by omega) hreadA.ready hblock
    have hthis := hfirst.trans (hreadA.trans hreadB)
    refine ⟨.mk name s.cursor.span da db, ?_, ?_, ?_⟩
    · refine ⟨hthis.passes, hthis.level, ?_, ?_, hthis.greedy.2⟩
      · simpa [Derivation.Call.depth] using hthis.fits
      · simpa [Derivation.Call.longest] using hthis.short
    -- the call ends with the last token that was passed, and the derivation with its last token
    · have hstop := previousSpan_of_passes hthis.passes (by simp)
      rw [List.singleton_append] at hstop
      rw [Derivation.Call.on, ← hstop]
    · intro hreceiver
      exact admits_call_iff.2
        ⟨hreceiver, ⟨refuse_checkName_eq_ok_iff.1 hrefuse, horder⟩, hadmitsA, hadmitsB⟩
  · rw [call_of_other rules receiver fun name hk => hname ⟨name, hk⟩] at h
    cases h

/-- Links have a derivation. The links before them count towards the limit,
which is why the longest chain is told from where the counting stands. -/
theorem links_sound (ih : ∀ s, s.size < n → rules.ChainSound s) {count : Nat} {soFar e : Expr}
    {s t : ParseState} (hn : s.size ≤ n) (hs : rules.Ready s)
    (hcount : count ≤ rules.options.maxChain) (h : rules.links count soFar s = .ok (e, t)) :
    ∃ d : Derivation.Links,
      rules.Read s t d.tokens d.depth (max (count + d.count) d.longest) d.Greedy
        ∧ d.onto soFar = e ∧ (rules.Admits soFar → rules.Admits e) := by
  rw [links_eq] at h
  split at h
  · next hpoint =>
    split at h
    · cases h
    · next hshort =>
      obtain ⟨⟨c, u⟩, hcall, hrest⟩ := bind_eq_ok_iff.1 h
      have hend := Cursor.atEnd_eq_false_of_atMark hpoint
      have hsize := ParseState.size_advance_lt hend
      have hless := size_lt_of_call hcall
      have hmark := hs.read_token (Token.Kind.isMark_iff.1 hpoint) hend
      obtain ⟨d, hread, rfl, hadmits⟩ := call_sound ih (by omega) hmark.ready hcall
      obtain ⟨ds, hreads, rfl, hadmits'⟩ := links_sound ih (by omega) hread.ready (by omega) hrest
      have hthis := hmark.trans (hread.trans hreads)
      refine ⟨.more s.cursor.span d ds, ?_, rfl, ?_⟩
      · refine ⟨hthis.passes, hthis.level, ?_, ?_, hthis.greedy.2⟩
        · simpa [Derivation.Links.depth] using hthis.fits
        · have := hthis.short
          simp only [Derivation.Links.count, Derivation.Links.longest]
          omega
      · intro hsoFar
        refine hadmits' (hadmits ?_)
        rintro r hr
        cases hr
        exact hsoFar
  · cases h
    -- no dot is ahead, which is what greed asks of the last link
    refine ⟨.none, ?_, rfl, id⟩
    refine ⟨.refl hs.rests, rfl, hs.shallow, ?_, trivial⟩
    simpa [Derivation.Links.count, Derivation.Links.longest] using hcount
termination_by s.size

/-- A chain in parentheses has a derivation, one level deeper than the chain. -/
theorem parenthesized_sound (ih : ∀ s, s.size < n → rules.ChainSound s) {s t : ParseState}
    {e : Expr} (hn : s.size ≤ n) (hs : rules.Ready s) (hmark : s.cursor.atMark '(' = true)
    (h : rules.parenthesized s (Cursor.atEnd_eq_false_of_atMark hmark) = .ok (e, t)) :
    ∃ d : Derivation.Primary, rules.Read s t d.tokens d.depth d.longest d.Greedy
      ∧ d.expr = e ∧ rules.Admits e := by
  rw [parenthesized_eq] at h
  obtain ⟨u, hopen, h⟩ := bind_eq_ok_iff.1 h
  obtain ⟨⟨inner, v⟩, hchain, h⟩ := bind_eq_ok_iff.1 h
  obtain ⟨w, hclose, h⟩ := bind_eq_ok_iff.1 h
  cases h
  obtain ⟨rfl, hcloses⟩ := ParseState.expectClosing_eq_ok hclose
  have hend := Cursor.atEnd_eq_false_of_atMark hmark
  have hsize := ParseState.size_lt_of_open? hend hopen
  obtain ⟨d, hread, rfl, hadmits⟩ := ih _ (by omega) _ _ (hs.open hend hopen) hchain
  have hthis := hread.delimited hs (Token.Kind.isMark_iff.1 hmark) hend hopen
    (Token.Kind.isMark_iff.1 hcloses) (Cursor.atEnd_eq_false_of_atMark hcloses)
  exact ⟨.parenthesized s.cursor.span d v.cursor.span, hthis, rfl, hadmits⟩

/-- A primary has a derivation, whichever of its forms is read. -/
theorem primary_sound (ih : ∀ s, s.size < n → rules.ChainSound s) {s t : ParseState}
    {e : Expr} (hn : s.size ≤ n) (hs : rules.Ready s) (h : rules.primary s = .ok (e, t)) :
    ∃ d : Derivation.Primary, rules.Read s t d.tokens d.depth d.longest d.Greedy
      ∧ d.expr = e ∧ rules.Admits e := by
  cases hliteral : Literal.ofToken? s.cursor.kind with
  | some value =>
    rw [primary_of_literal rules hliteral, literal_eq] at h
    obtain ⟨_, hadmits, hok⟩ := bind_eq_ok_iff.1 h
    cases hok
    have hthis := hs.read_token (Literal.ofToken?_eq_some_iff.1 hliteral)
      (atEnd_eq_false_of_literal hliteral)
    exact ⟨.literal value s.cursor.span, hthis, rfl,
      admits_literal_iff.2 (admitLiteral_eq_ok_iff.1 hadmits)⟩
  | none =>
    by_cases hname : ∃ name, s.cursor.kind = .identifier name
    · obtain ⟨name, hkind⟩ := hname
      rw [primary_of_identifier rules hkind] at h
      obtain ⟨⟨c, u⟩, hcall, hok⟩ := bind_eq_ok_iff.1 h
      cases hok
      obtain ⟨d, hread, rfl, hadmits⟩ := call_sound ih hn hs hcall
      exact ⟨.call d, hread, rfl, hadmits (by simp)⟩
    · cases hmark : s.cursor.atMark '(' with
      | true =>
        rw [primary_of_atMark rules hmark] at h
        exact parenthesized_sound ih hn hs hmark h
      | false =>
        rw [primary_of_other rules hliteral (fun name hk => hname ⟨name, hk⟩) hmark] at h
        cases h

/-- An expression that is read has a derivation. The induction is on how much
lies ahead: all recursion goes through chains. -/
theorem chain_sound (s : ParseState) : rules.ChainSound s := by
  induction hn : s.size using Nat.strongRecOn generalizing s with
  | ind n ih =>
    intro e t hs h
    have ih' : ∀ s', s'.size < n → rules.ChainSound s' := fun s' hs' => ih _ hs' s' rfl
    rw [chain_eq] at h
    obtain ⟨⟨first, u⟩, hprimary, hlinks⟩ := bind_eq_ok_iff.1 h
    have hless := size_lt_of_primary hprimary
    obtain ⟨d, hread, rfl, hadmits⟩ := primary_sound ih' (by omega) hs hprimary
    obtain ⟨ds, hreads, rfl, hadmits'⟩ :=
      links_sound ih' (by omega) hread.ready (Nat.zero_le _) hlinks
    have hthis := hread.trans hreads
    refine ⟨.mk d ds, ?_, rfl, hadmits' hadmits⟩
    refine ⟨hthis.passes, hthis.level, hthis.fits, ?_, hthis.greedy⟩
    have := hthis.short
    simp only [Derivation.Chain.longest]
    omega

-- ================================================================= programs

/-- The statements of a program, from the separators before them on, have a
derivation. The derivation goes up to the end of the input, and is greedy
there. -/
theorem readProgram_sound {s : ParseState} {before es : List Expr} (hs : rules.Ready s)
    (h : rules.readProgram before s.skipSeparators = .ok es) :
    ∃ (d : Derivation.Body) (t : ParseState),
      rules.Read s t d.tokens d.depth d.longest d.Greedy ∧ t.cursor.atEnd = true
        ∧ es = before.reverse ++ d.exprs ∧ ∀ e ∈ d.exprs, rules.Admits e := by
  obtain ⟨spans, hskip⟩ := hs.read_separators
  have hsize := ParseState.size_skipSeparators_le s
  rw [readProgram_eq] at h
  split at h
  · next hend =>
    cases h
    refine ⟨.done spans, s.skipSeparators, hskip, hend, ?_, ?_⟩
    · simp [Derivation.Body.exprs]
    · simp [Derivation.Body.exprs]
  · obtain ⟨⟨e, u⟩, hchain, hrest⟩ := bind_eq_ok_iff.1 h
    have hless := size_lt_of_chain hchain
    obtain ⟨d, hread, rfl, hadmits⟩ := chain_sound _ _ _ hskip.ready hchain
    obtain ⟨ds, t, hreads, hend, rfl, hall⟩ := readProgram_sound hread.ready hrest
    refine ⟨.more spans d ds, t, hskip.statement hread hreads, hend, ?_, ?_⟩
    · simp [Derivation.Body.exprs]
    · intro e he
      rcases List.mem_cons.1 he with rfl | he
      · exact hadmits
      · exact hall e he
termination_by s.size

end ParseRules

end UiScript
