/-
Where reading fails. Every failure stands at a token of the list that is
read: at the one under the cursor, or, if too much is nested, at the one that
opened a delimiter. There is always such a token, for a list that ends is
never read past its end.

# The invariant

What is asked of a span is left open (`P`). A state is `Over` such spans if
every token that it sees has one and the end is among them. Reading keeps
this, for what it passes was seen before.

# Main statements

* `Ends.bind`: one thing after the other.
* `chain_ends`, `readProgram_ends`: expressions and programs.
* `parse_error_span`: a list that is no program fails at one of its tokens.
-/
import UiScript.Proofs.Reading.Productions

namespace UiScript

-- ===================================================================== results

/-- What may come of reading: a failure at a span of which `P` holds, or
something of which `Q` holds. -/
def Ends {α : Type} (P : Span → Prop) (Q : α → Prop) : Except ParseFailure α → Prop
  | .ok a => Q a
  | .error e => P e.span

section

variable {α β : Type} {P : Span → Prop} {Q : α → Prop} {R : β → Prop}

/-- One thing after the other: the second one starts from what the first one
leaves. -/
theorem Ends.bind {x : Except ParseFailure α} {f : α → Except ParseFailure β} (h : Ends P Q x)
    (k : ∀ a, x = .ok a → Q a → Ends P R (f a)) : Ends P R (x >>= f) := by
  cases x with
  | error e => exact h
  | ok a => exact k a rfl h

end

-- ====================================================================== states

namespace ParseState

variable {P : Span → Prop} {s : ParseState}

/-- Every token that is seen has a span of which `P` holds, and the end of the
input is seen. -/
structure Over (P : Span → Prop) (s : ParseState) : Prop where
  rests : s.cursor.Rests
  spans : ∀ t ∈ s.cursor.seen, P t.span
  ends : ∃ t ∈ s.cursor.seen, t.kind.isEnd = true

/-- The token under the cursor is one that is seen. -/
theorem Over.here (h : s.Over P) : P s.cursor.span := by
  obtain ⟨t, ht, -⟩ := h.ends
  unfold Cursor.span
  rw [Cursor.current_eq h.rests]
  cases hseen : s.cursor.seen with
  | nil =>
    rw [hseen] at ht
    cases ht
  | cons u us => exact h.spans u (by rw [hseen]; exact List.mem_cons_self)

/-- A failure at the current token stands at one of the spans. -/
theorem Over.failHere {α : Type} {Q : α → Prop} (h : s.Over P) (cause : SyntaxError.Cause) :
    Ends P Q (.error (s.failHere cause)) := h.here

/-- The end of the input is not passed. -/
theorem Over.of_passes {c : Cursor} {ts : List Token} (h : s.Over P)
    (hpasses : s.cursor.Passes ts c) (depth : Nat) : Over P ⟨c, depth⟩ := by
  refine ⟨hpasses.rests, ?_, ?_⟩
  · intro t ht
    refine h.spans t ?_
    rw [hpasses.seen]
    exact List.mem_append_right ts ht
  · obtain ⟨t, ht, hend⟩ := h.ends
    rw [hpasses.seen] at ht
    rcases List.mem_append.1 ht with ht | ht
    · rw [hpasses.noEnd t ht] at hend
      cases hend
    · exact ⟨t, ht, hend⟩

/-- Passing a token that is not the end leaves the end still to be seen. -/
theorem Over.advance (h : s.Over P) (hend : s.cursor.atEnd = false) : s.advance.Over P :=
  h.of_passes (Cursor.advance_passes h.rests hend) s.depth

theorem Over.skipSeparators (h : s.Over P) : s.skipSeparators.Over P := by
  obtain ⟨spans, hpasses, -⟩ := Cursor.skipSeparators_passes h.rests
  exact h.of_passes hpasses s.depth

theorem Over.close (h : s.Over P) : s.close.Over P := ⟨h.rests, h.spans, h.ends⟩

/-- Opening a delimiter fails at the token that opens it, if it does. -/
theorem Over.open {rules : ParseRules} {opened : Span} (h : s.Over P) (hopened : P opened) :
    Ends P (Over P) (s.open? rules opened) := by
  unfold ParseState.open?
  split
  · exact ⟨h.rests, h.spans, h.ends⟩
  · exact hopened

/-- A missing closing mark is told at the current token. -/
theorem Over.expectClosing (h : s.Over P) (delimiter : Delimiter) (opened : Span) :
    Ends P (Over P) (s.expectClosing delimiter opened) := by
  unfold ParseState.expectClosing
  split
  · next hcloses => exact h.advance (Delimiter.atEnd_eq_false_of_closesAt hcloses)
  · split
    · exact h.failHere _
    · exact h.failHere _

end ParseState

-- ================================================================= productions

namespace ParseRules

open ParseState (Over)

variable {rules : ParseRules} {P : Span → Prop} {s : ParseState} {n : Nat}

/-- What is refused is refused where it stands. -/
theorem checkName_ends (name : String) {span : Span} (h : P span) :
    Ends P (fun _ => True) (refuse (rules.policy.checkName name span)) := by
  unfold Policy.checkName
  cases rules.policy.violation? name with
  | none => exact trivial
  | some violation => exact h

/-- A literal that is refused is refused at its own span. -/
theorem admitLiteral_ends (value : Literal) {span : Span} (h : P span) :
    Ends P (fun _ => True) (rules.admitLiteral value span) := by
  unfold admitLiteral
  cases value with
  | string text =>
    dsimp only
    split
    · unfold Policy.checkLiteral
      cases Policy.isSuspiciousLiteral text with
      | false => exact trivial
      | true => exact h
    · exact trivial
  | _ => exact trivial

/-- An expression, read from a state over such spans. -/
def ChainEnds (rules : ParseRules) (P : Span → Prop) (s : ParseState) : Prop :=
  s.Over P → Ends P (fun p => p.2.Over P) (rules.chain s)

section

variable (ih : ∀ s, s.size < n → ChainEnds rules P s)
include ih

theorem argument_ends {before : List Argument} (hn : s.size < n) (h : s.Over P) :
    Ends P (fun p => p.2.Over P) (rules.argument before s) := by
  cases hkey : keyAt s.cursor with
  | some key =>
    rw [argument_of_keyAt rules hkey]
    split
    · exact h.failHere _
    · have hend := atEnd_eq_false_of_keyAt hkey
      have hcolon : s.advance.cursor.atEnd = false := by
        rw [Cursor.atEnd, kind_advance_of_keyAt h.rests hkey]
        rfl
      have hsize := ParseState.size_advance_lt hend
      have hsize' := ParseState.size_advance_lt hcolon
      exact (ih _ (by omega) ((h.advance hend).advance hcolon)).bind fun p _ hp => hp
  | none =>
    rw [argument_of_no_key rules hkey]
    split
    · exact h.failHere _
    · exact (ih s hn h).bind fun p _ hp => hp

/-- A list of arguments fails inside one of them, by induction on what is
ahead. -/
theorem argumentList_ends {s : ParseState} (before : List Argument) (hn : s.size < n)
    (h : s.Over P) : Ends P (fun p => p.2.Over P) (rules.argumentList before s) := by
  rw [argumentList_eq]
  split
  · exact h
  · refine (argument_ends ih hn h).bind fun p hok hp => ?_
    have hsize := size_lt_of_argument hok
    split
    · next hcomma =>
      have hend := Cursor.atEnd_eq_false_of_atMark hcomma
      have hsize' := ParseState.size_advance_lt hend
      have hless : p.2.advance.size < n := by omega
      exact argumentList_ends _ hless (hp.advance hend)
    · exact hp
termination_by s.size

theorem arguments_ends (hn : s.size < n) (h : s.Over P) :
    Ends P (fun p => p.2.Over P) (rules.arguments s) := by
  rw [arguments_eq]
  split
  · next hmark =>
    have hend := Cursor.atEnd_eq_false_of_atMark hmark
    refine ((h.advance hend).open h.here).bind fun t hopen ht => ?_
    have hsize := ParseState.size_lt_of_open? hend hopen
    refine (argumentList_ends ih [] (by omega) ht).bind fun p _ hp => ?_
    exact (hp.expectClosing _ _).bind fun u _ hu => hu.close
  · exact h

/-- The statements of a block fail inside one of them, or at the end of the
input. -/
theorem statements_ends {s : ParseState} (delimiter : Delimiter) (opened : Span)
    (before : List Expr) (hn : s.size < n) (h : s.Over P) :
    Ends P (fun p => p.2.Over P ∧ delimiter.closesAt p.2.cursor = true)
      (rules.statements delimiter opened before s) := by
  have hskip := h.skipSeparators
  have hsize := ParseState.size_skipSeparators_le s
  rw [statements_eq]
  split
  · next hcloses => exact ⟨hskip, hcloses⟩
  · split
    · exact hskip.failHere _
    · refine (ih _ (by omega) hskip).bind fun p hok hp => ?_
      have hsize' := size_lt_of_chain hok
      have hless : p.2.size < n := by omega
      exact statements_ends delimiter opened _ hless hp
termination_by s.size

/-- A body fails where a delimiter too many is opened, or inside of it. -/
theorem body_ends (delimiter : Delimiter) (hn : s.size < n) (h : s.Over P)
    (hend : s.cursor.atEnd = false) :
    Ends P (fun p => p.2.Over P) (rules.body delimiter s hend) := by
  rw [body_eq]
  refine ((h.advance hend).open h.here).bind fun t hopen ht => ?_
  have hsize := ParseState.size_lt_of_open? hend hopen
  refine (statements_ends ih delimiter s.cursor.span [] (by omega) ht).bind fun p _ hp => ?_
  exact (hp.1.advance (Delimiter.atEnd_eq_false_of_closesAt hp.2)).close

theorem block_ends (hn : s.size < n) (h : s.Over P) :
    Ends P (fun p => p.2.Over P) (rules.block s) := by
  obtain ⟨delimiter, hend, hblock⟩ | hblock := block_cases rules s
  · rw [hblock]
    exact (body_ends ih delimiter hn h hend).bind fun p _ hp => hp
  · rw [hblock]
    exact h

/-- A call fails at its name, inside its arguments, or inside its block. -/
theorem call_ends {receiver : Option Expr} (hn : s.size ≤ n) (h : s.Over P) :
    Ends P (fun p => p.2.Over P) (rules.call receiver s) := by
  by_cases hname : ∃ name, s.cursor.kind = .identifier name
  · obtain ⟨name, hkind⟩ := hname
    rw [call_of_identifier rules receiver hkind]
    have hend := atEnd_eq_false_of_identifier hkind
    have hsize := ParseState.size_advance_lt hend
    refine (checkName_ends name h.here).bind fun _ _ _ => ?_
    refine (arguments_ends ih (by omega) (h.advance hend)).bind fun p hargs hp => ?_
    have hsize' := size_le_of_arguments hargs
    exact (block_ends ih (by omega) hp).bind fun q _ hq => hq
  · rw [call_of_other rules receiver fun name hkind => hname ⟨name, hkind⟩]
    exact h.failHere _

/-- Links fail at the token behind a dot, or inside the call there. -/
theorem links_ends {s : ParseState} (count : Nat) (soFar : Expr) (hn : s.size ≤ n) (h : s.Over P) :
    Ends P (fun p => p.2.Over P) (rules.links count soFar s) := by
  rw [links_eq]
  split
  · next hpoint =>
    split
    · exact h.failHere _
    · have hend := Cursor.atEnd_eq_false_of_atMark hpoint
      have hsize := ParseState.size_advance_lt hend
      refine (call_ends ih (by omega) (h.advance hend)).bind fun p hcall hp => ?_
      have hsize' := size_lt_of_call hcall
      have hless : p.2.size ≤ n := by omega
      exact links_ends (count + 1) _ hless hp
  · exact h
termination_by s.size

/-- A chain in parentheses fails where they open, inside of them, or where one
is missing. -/
theorem parenthesized_ends (hn : s.size ≤ n) (h : s.Over P) (hend : s.cursor.atEnd = false) :
    Ends P (fun p => p.2.Over P) (rules.parenthesized s hend) := by
  rw [parenthesized_eq]
  refine ((h.advance hend).open h.here).bind fun t hopen ht => ?_
  have hsize := ParseState.size_lt_of_open? hend hopen
  refine (ih t (by omega) ht).bind fun p _ hp => ?_
  exact (hp.expectClosing _ _).bind fun u _ hu => hu.close

/-- A primary fails at its first token, or inside. -/
theorem primary_ends (hn : s.size ≤ n) (h : s.Over P) :
    Ends P (fun p => p.2.Over P) (rules.primary s) := by
  cases hliteral : Literal.ofToken? s.cursor.kind with
  | some value =>
    rw [primary_of_literal rules hliteral, literal_eq]
    refine (admitLiteral_ends value h.here).bind fun _ _ _ => ?_
    exact h.advance (atEnd_eq_false_of_literal hliteral)
  | none =>
    by_cases hname : ∃ name, s.cursor.kind = .identifier name
    · obtain ⟨name, hkind⟩ := hname
      rw [primary_of_identifier rules hkind]
      exact (call_ends ih hn h).bind fun p _ hp => hp
    · by_cases hmark : s.cursor.atMark '(' = true
      · rw [primary_of_atMark rules hmark]
        exact parenthesized_ends ih hn h _
      · rw [primary_of_other rules hliteral (fun name hkind => hname ⟨name, hkind⟩)
          (Bool.eq_false_iff.2 hmark)]
        exact h.failHere _

end

-- ==================================================================== programs

/-- An expression that cannot be read fails at a token that is seen. The
induction is on what is ahead, and the spans may be asked anything that holds
of all tokens. -/
theorem chain_ends (s : ParseState) : ChainEnds rules P s := by
  induction hn : s.size using Nat.strongRecOn generalizing s with
  | ind n ih =>
    intro h
    have ih' : ∀ t, t.size < n → ChainEnds rules P t := fun t ht => ih _ ht t rfl
    rw [chain_eq]
    refine (primary_ends ih' (by omega) h).bind fun p hprimary hp => ?_
    have hsize := size_lt_of_primary hprimary
    exact links_ends ih' 0 p.1 (by omega) hp

/-- A program fails inside one of its statements, by induction on what is
ahead. -/
theorem readProgram_ends {s : ParseState} (before : List Expr) (h : s.Over P) :
    Ends P (fun _ => True) (rules.readProgram before s) := by
  rw [readProgram_eq]
  split
  · exact trivial
  · refine (chain_ends s h).bind fun p hok hp => ?_
    have hless := size_lt_of_chain hok
    have hsize := ParseState.size_skipSeparators_le p.2
    exact readProgram_ends _ hp.skipSeparators
termination_by s.size

/-- A mark that is refused is refused at its own span, wherever it stands in
the list. -/
theorem checkMarks_ends {tokens : List Token} (h : ∀ t ∈ tokens, P t.span) :
    Ends P (fun _ => True) (refuse (checkMarks tokens)) := by
  induction tokens with
  | nil => exact trivial
  | cons t ts ih =>
    obtain ⟨hthis, hrest⟩ := List.forall_mem_cons.1 h
    obtain ⟨kind, span⟩ := t
    unfold checkMarks
    cases kind with
    | punctuation c =>
      simp only [Policy.checkMark]
      split
      · exact hthis
      · exact ih hrest
    | _ => exact ih hrest

/-- A list that ends and is no program fails at one of its tokens. With the
order of the tokens this is where every failure of a source is located. -/
theorem parse_error_span {tokens : List Token} {failure : ParseFailure}
    (hend : ∃ t ∈ tokens, t.kind.isEnd = true) (h : rules.parse tokens = .error failure) :
    ∃ t ∈ tokens, failure.span = t.span := by
  obtain ⟨hrests, hseen, -⟩ := Cursor.ofTokens_spec tokens
  have hstart : (startOf tokens).Over fun span => ∃ t ∈ tokens, span = t.span := by
    refine Over.skipSeparators (s := ⟨Cursor.ofTokens tokens, 0⟩) ⟨hrests, ?_, ?_⟩
    · intro t ht
      rw [hseen] at ht
      exact ⟨t, (List.mem_filter.1 ht).1, rfl⟩
    · obtain ⟨t, ht, hkind⟩ := hend
      refine ⟨t, ?_, hkind⟩
      rw [hseen]
      refine List.mem_filter.2 ⟨ht, ?_⟩
      rw [Token.isComment, Token.Kind.isComment_eq_false_of_isEnd hkind]
      rfl
  have hends : Ends (fun span => ∃ t ∈ tokens, span = t.span) (fun _ => True)
      (rules.parse tokens) := by
    rw [parse_eq]
    refine (checkMarks_ends fun t ht => ⟨t, ht, rfl⟩).bind fun _ _ _ => ?_
    split
    · exact hstart.failHere _
    · exact (readProgram_ends [] hstart).bind fun _ _ _ => trivial
  rw [h] at hends
  exact hends

end ParseRules

end UiScript
