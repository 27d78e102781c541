/-
Reading moves on and stays in balance. A production that succeeds has passed
a token at least, comes to rest, and leaves as many delimiters open as it
found. So no delimiter is closed that is not open, and none of the loops of
the parser goes round more often than there are tokens.

Nothing is assumed of the state that a production starts from. The list may
hold comments, the end may be missing or stand anywhere, the cursor may stand
on a comment, and any number of delimiters may be open.

# Two ways to be behind

A state `Follows` another one if nothing need be passed between them; then it
rests if the other one does. This is what holds of the parts of a production
that may be empty. A state is `Forward` of another one if a token is passed;
then it rests wherever the other one was, for advancing ends at rest. Every
production is a step forward, with parts that follow before it and behind it.

# Main statements

* `ParseState.Follows.enclose`: what stands between delimiters.
* `chain_forward`: an expression, by induction on what is ahead.
* `Exit.balanced`: where a delimiter is closed, it is open.
* `Pass.forward`, `Pass.outcome_eq`: one pass of a loop.
* `Passes.le_size`, `exists_last_pass`: all of them.
* `reading_progresses`: the productions, the delimiters and the loops.
-/
import UiScript.Proofs.Reading.Productions

namespace UiScript

-- ====================================================================== states

namespace ParseState

variable {s t u : ParseState}

/-- The state `t` is `s` or behind it in the list, with as many delimiters
open. -/
structure Follows (s t : ParseState) : Prop where
  tokens : t.cursor.tokens = s.cursor.tokens
  size_le : t.size ≤ s.size
  rests : s.cursor.Rests → t.cursor.Rests
  depth : t.depth = s.depth

/-- The state `t` is behind `s` in the list, at rest, with as many delimiters
open. -/
structure Forward (s t : ParseState) : Prop where
  tokens : t.cursor.tokens = s.cursor.tokens
  position_lt : s.cursor.position < t.cursor.position
  rests : t.cursor.Rests
  depth : t.depth = s.depth

theorem Follows.refl (s : ParseState) : s.Follows s := ⟨rfl, Nat.le_refl _, id, rfl⟩

/-- Being behind goes on from one state to the next. -/
theorem Follows.trans (h : s.Follows t) (k : t.Follows u) : s.Follows u :=
  ⟨k.tokens.trans h.tokens, Nat.le_trans k.size_le h.size_le, k.rests ∘ h.rests,
    k.depth.trans h.depth⟩

/-- A step forward is told by what is left ahead. -/
theorem Forward.of_size_lt (htokens : t.cursor.tokens = s.cursor.tokens) (hsize : t.size < s.size)
    (hrests : t.cursor.Rests) (hdepth : t.depth = s.depth) : s.Forward t := by
  refine ⟨htokens, ?_, hrests, hdepth⟩
  have hsum := Cursor.position_add_size_eq htokens
  have hsize : t.cursor.size < s.cursor.size := hsize
  omega

/-- Less is ahead of what has moved forward. This is what makes the loops end. -/
theorem Forward.size_lt (h : s.Forward t) : t.size < s.size := by
  have hsum := Cursor.position_add_size_eq h.tokens
  have hposition := h.position_lt
  unfold size
  omega

/-- What has moved forward is behind, and rests. -/
theorem Forward.follows (h : s.Forward t) : s.Follows t :=
  ⟨h.tokens, Nat.le_of_lt h.size_lt, fun _ => h.rests, h.depth⟩

/-- A step forward, and what follows it. -/
theorem Forward.trans_follows (h : s.Forward t) (k : t.Follows u) : s.Forward u :=
  .of_size_lt (k.tokens.trans h.tokens) (Nat.lt_of_le_of_lt k.size_le h.size_lt) (k.rests h.rests)
    (k.depth.trans h.depth)

/-- What follows, and a step forward from there. -/
theorem Follows.trans_forward (h : s.Follows t) (k : t.Forward u) : s.Forward u :=
  .of_size_lt (k.tokens.trans h.tokens) (Nat.lt_of_lt_of_le k.size_lt h.size_le) k.rests
    (k.depth.trans h.depth)

theorem Forward.trans (h : s.Forward t) (k : t.Forward u) : s.Forward u :=
  h.trans_follows k.follows

/-- Passing a token that is not the end is a move forward, since the cursor
comes to rest at the next token that is no comment. -/
theorem advance_forward (h : s.cursor.atEnd = false) : s.Forward s.advance :=
  .of_size_lt s.cursor.tokens_advance (size_advance_lt h) s.cursor.rests_advance rfl

theorem advance_follows (s : ParseState) : s.Follows s.advance :=
  ⟨s.cursor.tokens_advance, s.size_advance_le, fun _ => s.cursor.rests_advance, rfl⟩

theorem skipSeparators_follows (s : ParseState) : s.Follows s.skipSeparators :=
  ⟨s.cursor.tokens_skipSeparators, s.size_skipSeparators_le, Cursor.rests_skipSeparators, rfl⟩

/-- Between an opening token and a closing one a delimiter is open, and behind
them it is not. -/
theorem Follows.enclose {rules : ParseRules} {opened : Span} (hend : s.cursor.atEnd = false)
    (hopen : s.advance.open? rules opened = .ok t) (h : t.Follows u)
    (hcloses : u.cursor.atEnd = false) :
    u.advance.depth = s.depth + 1 ∧ s.Forward u.advance.close := by
  obtain ⟨rfl, -⟩ := open?_eq_ok hopen
  have hdepth : u.depth = s.depth + 1 := h.depth
  have hfirst := advance_forward hend
  have hlast := advance_forward hcloses
  refine ⟨hdepth, .of_size_lt ?_ ?_ hlast.rests ?_⟩
  · exact hlast.tokens.trans (h.tokens.trans hfirst.tokens)
  · exact Nat.lt_trans hlast.size_lt (Nat.lt_of_le_of_lt h.size_le hfirst.size_lt)
  · show u.depth - 1 = s.depth
    omega

end ParseState

-- ================================================================= productions

namespace ParseRules

open ParseState (Follows Forward)

variable {rules : ParseRules} {s t : ParseState} {n : Nat}

-- ------------------------------------------------------------------ delimiters

/-- A delimiter opens at `s`, what stands in it is read, and `v` is behind
what closes it, where it is still counted as open. Only in such states does
the parser count one delimiter less. -/
inductive Exit (rules : ParseRules) : ParseState → ParseState → Prop
  | parentheses {s t u v : ParseState} {e : Expr} (hend : s.cursor.atEnd = false)
      (hopen : s.advance.open? rules s.cursor.span = .ok t) (hinside : rules.chain t = .ok (e, u))
      (hclose : u.expectClosing .parentheses s.cursor.span = .ok v) : Exit rules s v
  | arguments {s t u v : ParseState} {args : List Argument} (hend : s.cursor.atEnd = false)
      (hopen : s.advance.open? rules s.cursor.span = .ok t)
      (hinside : rules.argumentList [] t = .ok (args, u))
      (hclose : u.expectClosing .arguments s.cursor.span = .ok v) : Exit rules s v
  | block {s t u : ParseState} {delimiter : Delimiter} {es : List Expr}
      (hend : s.cursor.atEnd = false) (hopen : s.advance.open? rules s.cursor.span = .ok t)
      (hinside : rules.statements delimiter s.cursor.span [] t = .ok (es, u)) :
      Exit rules s u.advance

/-- A chain in parentheses leaves a delimiter that it has opened itself. -/
theorem exit_of_parenthesized {e : Expr} {hend : s.cursor.atEnd = false}
    (h : rules.parenthesized s hend = .ok (e, t)) : ∃ v, rules.Exit s v ∧ v.close = t := by
  rw [parenthesized_eq] at h
  obtain ⟨u, hopen, h⟩ := bind_eq_ok_iff.1 h
  obtain ⟨⟨inner, w⟩, hinside, h⟩ := bind_eq_ok_iff.1 h
  obtain ⟨v, hclose, h⟩ := bind_eq_ok_iff.1 h
  cases h
  exact ⟨v, .parentheses hend hopen hinside hclose, rfl⟩

theorem exit_of_arguments {args : List Argument} (hmark : s.cursor.atMark '(' = true)
    (h : rules.arguments s = .ok (args, t)) : ∃ v, rules.Exit s v ∧ v.close = t := by
  rw [arguments_eq, if_pos hmark] at h
  obtain ⟨u, hopen, h⟩ := bind_eq_ok_iff.1 h
  obtain ⟨⟨as, w⟩, hinside, h⟩ := bind_eq_ok_iff.1 h
  obtain ⟨v, hclose, h⟩ := bind_eq_ok_iff.1 h
  cases h
  exact ⟨v, .arguments (Cursor.atEnd_eq_false_of_atMark hmark) hopen hinside hclose, rfl⟩

theorem exit_of_body {delimiter : Delimiter} {b : Block} {hend : s.cursor.atEnd = false}
    (h : rules.body delimiter s hend = .ok (b, t)) : ∃ v, rules.Exit s v ∧ v.close = t := by
  rw [body_eq] at h
  obtain ⟨u, hopen, h⟩ := bind_eq_ok_iff.1 h
  obtain ⟨⟨es, w⟩, hinside, h⟩ := bind_eq_ok_iff.1 h
  cases h
  exact ⟨w.advance, .block hend hopen hinside, rfl⟩

-- ----------------------------------------------------------------- productions

/-- An expression, read from a state. -/
def ChainForward (rules : ParseRules) (s : ParseState) : Prop :=
  ∀ e t, rules.chain s = .ok (e, t) → s.Forward t

section

variable (ih : ∀ s, s.size < n → ChainForward rules s)
include ih

/-- An argument is a chain, with or without a key in front, so it moves
forward. -/
theorem argument_forward {before : List Argument} {arg : Argument} (hn : s.size < n)
    (h : rules.argument before s = .ok (arg, t)) : s.Forward t := by
  cases hkey : keyAt s.cursor with
  | some key =>
    rw [argument_of_keyAt rules hkey] at h
    split at h
    · cases h
    · obtain ⟨⟨value, u⟩, hchain, hok⟩ := bind_eq_ok_iff.1 h
      cases hok
      have hname := ParseState.advance_forward (atEnd_eq_false_of_keyAt hkey)
      have hcolon := hname.trans_follows s.advance.advance_follows
      have hless := hcolon.size_lt
      exact hcolon.trans (ih _ (by omega) _ _ hchain)
  | none =>
    rw [argument_of_no_key rules hkey] at h
    split at h
    · cases h
    · obtain ⟨⟨value, u⟩, hchain, hok⟩ := bind_eq_ok_iff.1 h
      cases hok
      exact ih s hn _ _ hchain

/-- A list of arguments may be empty; whatever is in it moves forward. The
induction is on what is ahead. -/
theorem argumentList_follows {s : ParseState} {before args : List Argument} (hn : s.size < n)
    (h : rules.argumentList before s = .ok (args, t)) : s.Follows t := by
  rw [argumentList_eq] at h
  split at h
  · cases h
    exact .refl _
  · obtain ⟨⟨arg, u⟩, harg, hrest⟩ := bind_eq_ok_iff.1 h
    have hu := argument_forward ih hn harg
    dsimp only at hrest
    split at hrest
    · have hcomma := hu.trans_follows u.advance_follows
      have hless := hcomma.size_lt
      exact hcomma.follows.trans (argumentList_follows (by omega) hrest)
    · cases hrest
      exact hu.follows
termination_by s.size

/-- The statements of a block may be none. They end at the closing mark, which
is still ahead, so the end of the input is not reached. -/
theorem statements_follows {s : ParseState} {delimiter : Delimiter} {opened : Span}
    {before es : List Expr} (hn : s.size < n)
    (h : rules.statements delimiter opened before s = .ok (es, t)) :
    s.Follows t ∧ t.cursor.atEnd = false := by
  have hskip := s.skipSeparators_follows
  rw [statements_eq] at h
  split at h
  · next hcloses =>
    cases h
    exact ⟨hskip, Delimiter.atEnd_eq_false_of_closesAt hcloses⟩
  · split at h
    · cases h
    · obtain ⟨⟨e, u⟩, hchain, hrest⟩ := bind_eq_ok_iff.1 h
      have hsize := hskip.size_le
      have hu := hskip.trans_forward (ih _ (by omega) _ _ hchain)
      have hless := hu.size_lt
      obtain ⟨ht, hend⟩ := statements_follows (Nat.lt_trans hless hn) hrest
      exact ⟨hu.follows.trans ht, hend⟩
termination_by s.size

/-- Where a delimiter is closed it is open, and behind it as many are open as
before. So the count never falls below zero, where it would stay without a
trace. -/
theorem Exit.balanced {v : ParseState} (hn : s.size ≤ n) (h : rules.Exit s v) :
    v.depth = s.depth + 1 ∧ s.Forward v.close := by
  cases h with
  | parentheses hend hopen hinside hclose =>
    have hsize := ParseState.size_lt_of_open? hend hopen
    have hu := (ih _ (by omega) _ _ hinside).follows
    obtain ⟨rfl, hcloses⟩ := ParseState.expectClosing_eq_ok hclose
    exact hu.enclose hend hopen (Delimiter.atEnd_eq_false_of_closesAt hcloses)
  | arguments hend hopen hinside hclose =>
    have hsize := ParseState.size_lt_of_open? hend hopen
    have hu := argumentList_follows ih (by omega) hinside
    obtain ⟨rfl, hcloses⟩ := ParseState.expectClosing_eq_ok hclose
    exact hu.enclose hend hopen (Delimiter.atEnd_eq_false_of_closesAt hcloses)
  | block hend hopen hinside =>
    have hsize := ParseState.size_lt_of_open? hend hopen
    obtain ⟨hu, hcloses⟩ := statements_follows ih (by omega) hinside
    exact hu.enclose hend hopen hcloses

/-- Arguments in parentheses pass the parentheses at least. -/
theorem arguments_forward {args : List Argument} (hn : s.size ≤ n)
    (hmark : s.cursor.atMark '(' = true) (h : rules.arguments s = .ok (args, t)) :
    s.Forward t := by
  obtain ⟨v, hexit, rfl⟩ := exit_of_arguments hmark h
  exact (hexit.balanced ih hn).2

/-- Arguments that are left out pass nothing. -/
theorem arguments_follows {args : List Argument} (hn : s.size ≤ n)
    (h : rules.arguments s = .ok (args, t)) : s.Follows t := by
  by_cases hmark : s.cursor.atMark '(' = true
  · exact (arguments_forward ih hn hmark h).follows
  · rw [arguments_eq, if_neg hmark] at h
    cases h
    exact .refl _

/-- A body passes its two marks at least. -/
theorem body_forward {delimiter : Delimiter} {b : Block} (hn : s.size ≤ n)
    {hend : s.cursor.atEnd = false} (h : rules.body delimiter s hend = .ok (b, t)) :
    s.Forward t := by
  obtain ⟨v, hexit, rfl⟩ := exit_of_body h
  exact (hexit.balanced ih hn).2

/-- A block that is left out passes nothing. -/
theorem block_follows {b : Option Block} (hn : s.size ≤ n)
    (h : rules.block s = .ok (b, t)) : s.Follows t := by
  obtain ⟨delimiter, hend, hblock⟩ | hblock := block_cases rules s
  · rw [hblock] at h
    obtain ⟨⟨b, u⟩, hbody, h⟩ := bind_eq_ok_iff.1 h
    cases h
    exact (body_forward ih hn hbody).follows
  · rw [hblock] at h
    cases h
    exact .refl _

/-- A call passes its name at least. -/
theorem call_forward {receiver : Option Expr} {c : Call} (hn : s.size ≤ n)
    (h : rules.call receiver s = .ok (c, t)) : s.Forward t := by
  by_cases hname : ∃ name, s.cursor.kind = .identifier name
  · obtain ⟨name, hkind⟩ := hname
    rw [call_of_identifier rules receiver hkind] at h
    obtain ⟨_, -, h⟩ := bind_eq_ok_iff.1 h
    obtain ⟨⟨args, u⟩, harguments, h⟩ := bind_eq_ok_iff.1 h
    obtain ⟨⟨b, v⟩, hblock, h⟩ := bind_eq_ok_iff.1 h
    cases h
    have hfirst := ParseState.advance_forward (atEnd_eq_false_of_identifier hkind)
    have hsize := hfirst.size_lt
    have hu := arguments_follows ih (by omega) harguments
    have hsize' := hu.size_le
    have hv := block_follows ih (Nat.le_trans hsize' (by omega)) hblock
    exact hfirst.trans_follows (hu.trans hv)
  · rw [call_of_other rules receiver fun name hkind => hname ⟨name, hkind⟩] at h
    cases h

/-- Links may be none; each passes its dot and a call. -/
theorem links_follows {s : ParseState} {count : Nat} {soFar e : Expr} (hn : s.size ≤ n)
    (h : rules.links count soFar s = .ok (e, t)) : s.Follows t := by
  rw [links_eq] at h
  split at h
  · next hpoint =>
    split at h
    · cases h
    · obtain ⟨⟨c, u⟩, hcall, hrest⟩ := bind_eq_ok_iff.1 h
      have hfirst := ParseState.advance_forward (Cursor.atEnd_eq_false_of_atMark hpoint)
      have hsize := hfirst.size_lt
      have hu := hfirst.trans (call_forward ih (by omega) hcall)
      have hless := hu.size_lt
      exact hu.follows.trans (links_follows (Nat.le_trans (Nat.le_of_lt hless) hn) hrest)
  · cases h
    exact .refl _
termination_by s.size

/-- A chain in parentheses passes more than the chain. -/
theorem parenthesized_forward {e : Expr} (hn : s.size ≤ n) {hend : s.cursor.atEnd = false}
    (h : rules.parenthesized s hend = .ok (e, t)) : s.Forward t := by
  obtain ⟨v, hexit, rfl⟩ := exit_of_parenthesized h
  exact (hexit.balanced ih hn).2

/-- A primary moves forward in each of its forms. -/
theorem primary_forward {e : Expr} (hn : s.size ≤ n) (h : rules.primary s = .ok (e, t)) :
    s.Forward t := by
  cases hliteral : Literal.ofToken? s.cursor.kind with
  | some value =>
    rw [primary_of_literal rules hliteral, literal_eq] at h
    obtain ⟨_, -, h⟩ := bind_eq_ok_iff.1 h
    cases h
    exact ParseState.advance_forward (atEnd_eq_false_of_literal hliteral)
  | none =>
    by_cases hname : ∃ name, s.cursor.kind = .identifier name
    · obtain ⟨name, hkind⟩ := hname
      rw [primary_of_identifier rules hkind] at h
      obtain ⟨⟨c, u⟩, hcall, h⟩ := bind_eq_ok_iff.1 h
      cases h
      exact call_forward ih hn hcall
    · cases hmark : s.cursor.atMark '(' with
      | true =>
        rw [primary_of_atMark rules hmark] at h
        exact parenthesized_forward ih hn h
      | false =>
        rw [primary_of_other rules hliteral (fun name hkind => hname ⟨name, hkind⟩) hmark] at h
        cases h

end

/-- An expression, read from any state. The induction is on what is ahead of
the state. All other productions are shown to move on by what is known of the
chains inside of them. -/
theorem chain_forward (s : ParseState) : ChainForward rules s := by
  induction hn : s.size using Nat.strongRecOn generalizing s with
  | ind n ih =>
    have ih' : ∀ t, t.size < n → ChainForward rules t := fun t ht => ih _ ht t rfl
    intro e t h
    rw [chain_eq] at h
    obtain ⟨⟨first, u⟩, hprimary, hlinks⟩ := bind_eq_ok_iff.1 h
    have hu := primary_forward ih' (by omega) hprimary
    have hless := hu.size_lt
    exact hu.trans_follows (links_follows ih' (Nat.le_trans (Nat.le_of_lt hless) (by omega)) hlinks)

-- ======================================================================= loops

/-- A loop of the parser at the start of a pass: where it is, and what it has
gathered. -/
inductive Loop where
  /-- The calls chained to an expression. -/
  | links (count : Nat) (soFar : Expr) (s : ParseState)
  /-- The arguments of a call. -/
  | arguments (before : List Argument) (s : ParseState)
  /-- The statements of a block. -/
  | block (delimiter : Delimiter) (opened : Span) (before : List Expr) (s : ParseState)
  /-- The statements of a program. -/
  | program (before : List Expr) (s : ParseState)

namespace Loop

/-- Where a loop is. -/
def state : Loop → ParseState
  | .links _ _ s | .arguments _ s | .block _ _ _ s | .program _ s => s

/-- What a loop comes to in the end. -/
inductive Outcome where
  | links (e : Expr) (s : ParseState)
  | arguments (args : List Argument) (s : ParseState)
  | block (es : List Expr) (s : ParseState)
  | program (es : List Expr)

/-- What the parser makes of a loop. -/
def outcome (rules : ParseRules) : Loop → Except ParseFailure Outcome
  | .links count soFar s => (rules.links count soFar s).map fun p => .links p.1 p.2
  | .arguments before s => (rules.argumentList before s).map fun p => .arguments p.1 p.2
  | .block delimiter opened before s =>
    (rules.statements delimiter opened before s).map fun p => .block p.1 p.2
  | .program before s => (rules.readProgram before s).map .program

end Loop

/-- A pass of a loop that does not end it: the loop goes on where the pass has
come to. -/
inductive Pass (rules : ParseRules) : Loop → Loop → Prop
  | links {count : Nat} {soFar : Expr} {s t : ParseState} {c : Call}
      (hpoint : s.cursor.atMark '.' = true) (hshort : count + 1 ≤ rules.options.maxChain)
      (hcall : rules.call (some soFar) s.advance = .ok (c, t)) :
      Pass rules (.links count soFar s) (.links (count + 1) (.call c) t)
  | arguments {before : List Argument} {s t : ParseState} {arg : Argument}
      (hopen : (Delimiter.arguments.closesAt s.cursor || s.cursor.atEnd) = false)
      (harg : rules.argument before s = .ok (arg, t)) (hcomma : t.cursor.atMark ',' = true) :
      Pass rules (.arguments before s) (.arguments (arg :: before) t.advance)
  | block {delimiter : Delimiter} {opened : Span} {before : List Expr} {s t : ParseState} {e : Expr}
      (hopen : delimiter.closesAt s.skipSeparators.cursor = false)
      (hend : s.skipSeparators.cursor.atEnd = false)
      (hchain : rules.chain s.skipSeparators = .ok (e, t)) :
      Pass rules (.block delimiter opened before s) (.block delimiter opened (e :: before) t)
  | program {before : List Expr} {s t : ParseState} {e : Expr} (hend : s.cursor.atEnd = false)
      (hchain : rules.chain s = .ok (e, t)) :
      Pass rules (.program before s) (.program (e :: before) t.skipSeparators)

/-- After `k` passes the loop `l` is at `m`. -/
inductive Passes (rules : ParseRules) : Nat → Loop → Loop → Prop
  | none (l : Loop) : Passes rules 0 l l
  | more {k : Nat} {l m n : Loop} (hpass : rules.Pass l m) (hrest : Passes rules k m n) :
      Passes rules (k + 1) l n

/-- A pass is what the parser does: the loop comes to what it comes to from
there. -/
theorem Pass.outcome_eq {l m : Loop} (h : rules.Pass l m) : m.outcome rules = l.outcome rules := by
  cases h with
  | @links count soFar s t c hpoint hshort hcall =>
    have hread : rules.links count soFar s = rules.links (count + 1) (.call c) t := by
      rw [links_eq rules count, if_pos hpoint, if_neg (Nat.not_lt.2 hshort), hcall]
      rfl
    exact congrArg (Except.map fun p => Loop.Outcome.links p.1 p.2) hread.symm
  | @arguments before s t arg hopen harg hcomma =>
    have hread : rules.argumentList before s = rules.argumentList (arg :: before) t.advance := by
      rw [argumentList_eq rules before, hopen, if_neg Bool.false_ne_true, harg]
      exact if_pos hcomma
    exact congrArg (Except.map fun p => Loop.Outcome.arguments p.1 p.2) hread.symm
  | @block delimiter opened before s t e hopen hend hchain =>
    have hread : rules.statements delimiter opened before s
        = rules.statements delimiter opened (e :: before) t := by
      rw [statements_eq rules delimiter opened before, hopen, hend, if_neg Bool.false_ne_true,
        if_neg Bool.false_ne_true, hchain]
      rfl
    exact congrArg (Except.map fun p => Loop.Outcome.block p.1 p.2) hread.symm
  | @program before s t e hend hchain =>
    have hread : rules.readProgram before s = rules.readProgram (e :: before) t.skipSeparators := by
      rw [readProgram_eq rules before, hend, if_neg Bool.false_ne_true, hchain]
      rfl
    exact congrArg (Except.map Loop.Outcome.program) hread.symm

/-- A pass moves on. -/
theorem Pass.forward {l m : Loop} (h : rules.Pass l m) : l.state.Forward m.state := by
  cases h with
  | links hpoint _ hcall =>
    have hfirst := ParseState.advance_forward (Cursor.atEnd_eq_false_of_atMark hpoint)
    exact hfirst.trans (call_forward (fun s _ => chain_forward s) (Nat.le_refl _) hcall)
  | arguments _ harg _ =>
    have harg := argument_forward (fun s _ => chain_forward s) (Nat.lt_succ_self _) harg
    exact harg.trans_follows (ParseState.advance_follows _)
  | block _ _ hchain =>
    have hstatement := chain_forward _ _ _ hchain
    exact (ParseState.skipSeparators_follows _).trans_forward hstatement
  | program _ hchain =>
    have hstatement := chain_forward _ _ _ hchain
    exact hstatement.trans_follows (ParseState.skipSeparators_follows _)

/-- Each pass takes a token at least from those that are ahead. The number of
passes is therefore bounded by the number of tokens that are ahead at the
start. -/
theorem Passes.le_size {k : Nat} {l m : Loop} (h : rules.Passes k l m) :
    k + m.state.size ≤ l.state.size := by
  induction h with
  | none l => omega
  | more hpass _ ih =>
    have hless := hpass.forward.size_lt
    omega

/-- However many passes are made, the outcome of the loop is that of where it
has come to. -/
theorem Passes.outcome_eq {k : Nat} {l m : Loop} (h : rules.Passes k l m) :
    m.outcome rules = l.outcome rules := by
  induction h with
  | none l => rfl
  | more hpass _ ih => exact ih.trans hpass.outcome_eq

/-- Every loop comes to a last pass. There are no more passes than tokens, so
one of them has no pass behind it. -/
theorem exists_last_pass (rules : ParseRules) (l : Loop) :
    ∃ k m, rules.Passes k l m ∧ ∀ n, ¬ rules.Pass m n := by
  induction hsize : l.state.size using Nat.strongRecOn generalizing l with
  | ind size ih =>
    by_cases hnext : ∃ m, rules.Pass l m
    · obtain ⟨m, hpass⟩ := hnext
      have hless := hpass.forward.size_lt
      obtain ⟨k, n, hrest, hlast⟩ := ih m.state.size (by omega) m rfl
      exact ⟨k + 1, n, .more hpass hrest, hlast⟩
    · exact ⟨0, l, .none l, fun m hpass => hnext ⟨m, hpass⟩⟩

-- ==================================================================== progress

/-- Whatever the tokens are and wherever reading starts, it moves on and stays
in balance. An expression, which is also what a statement is, a call, the
arguments of a call, a block and an expression in parentheses have passed a
token if they succeed; they come to rest, with as many delimiters open as
before. The parser counts one delimiter less only where one more is open than
at the start of what it closes, so it never counts below zero. And every loop
comes to a last pass, has the outcome that it has from there, and takes a
token for each pass. -/
theorem reading_progresses (rules : ParseRules) :
    (∀ s e t, rules.chain s = .ok (e, t) → s.Forward t)
      ∧ (∀ receiver s c t, rules.call receiver s = .ok (c, t) → s.Forward t)
      ∧ (∀ s args t, s.cursor.atMark '(' = true → rules.arguments s = .ok (args, t) →
        s.Forward t ∧ ∃ v, rules.Exit s v ∧ v.close = t)
      ∧ (∀ delimiter s hend b t, rules.body delimiter s hend = .ok (b, t) →
        s.Forward t ∧ ∃ v, rules.Exit s v ∧ v.close = t)
      ∧ (∀ s hend e t, rules.parenthesized s hend = .ok (e, t) →
        s.Forward t ∧ ∃ v, rules.Exit s v ∧ v.close = t)
      ∧ (∀ s v, rules.Exit s v → v.depth = s.depth + 1)
      ∧ (∀ l, ∃ k m, rules.Passes k l m ∧ (∀ n, ¬ rules.Pass m n)
        ∧ m.outcome rules = l.outcome rules)
      ∧ ∀ k l m, rules.Passes k l m → k + m.state.size ≤ l.state.size := by
  have hchains : ∀ {n} s, ParseState.size s < n → ChainForward rules s :=
    fun s _ => chain_forward s
  -- every closing comes with an opening of the same production
  have hexits : ∀ {s v}, rules.Exit s v → v.depth = s.depth + 1 ∧ s.Forward v.close :=
    fun h => h.balanced hchains (Nat.le_refl _)
  refine ⟨chain_forward, fun receiver s c t => call_forward hchains (Nat.le_refl _), ?_, ?_, ?_,
    fun s v h => (hexits h).1, ?_, fun k l m => Passes.le_size⟩
  · intro s args t hmark h
    obtain ⟨v, hexit, rfl⟩ := exit_of_arguments hmark h
    exact ⟨(hexits hexit).2, v, hexit, rfl⟩
  · intro delimiter s hend b t h
    obtain ⟨v, hexit, rfl⟩ := exit_of_body h
    exact ⟨(hexits hexit).2, v, hexit, rfl⟩
  · intro s hend e t h
    obtain ⟨v, hexit, rfl⟩ := exit_of_parenthesized h
    exact ⟨(hexits hexit).2, v, hexit, rfl⟩
  · intro l
    obtain ⟨k, m, hpasses, hlast⟩ := exists_last_pass rules l
    exact ⟨k, m, hpasses, hlast, hpasses.outcome_eq⟩

/-- An expression in parentheses, with a comment in it and no end behind it. -/
theorem reading_progresses_parentheses :
    let rules : ParseRules := ⟨.denylistOnly, .standard⟩
    let tokens : List Token := [.mark '(' ⟨0, 1⟩, ⟨.comment "", ⟨1, 3⟩⟩, ⟨.nil, ⟨4, 7⟩⟩,
      .mark ')' ⟨7, 8⟩]
    let s : ParseState := ⟨Cursor.ofTokens tokens, 0⟩
    let t : ParseState := ⟨⟨tokens.reverse, []⟩, 0⟩
    let e : Expr := .literal .nil ⟨4, 7⟩
    (∃ hend, rules.parenthesized s hend = .ok (e, t)) ∧ s.Forward t
      ∧ (∃ v, rules.Exit s v ∧ v.close = t ∧ v.depth = 1)
      ∧ rules.Passes 1 (.program [] s) (.program [e] t) ∧ 1 + t.size ≤ s.size := by
  intro rules tokens s t e
  obtain ⟨-, -, -, -, hparenthesized, hexit, -, hpasses⟩ := reading_progresses rules
  have hnil : Literal.ofToken? s.cursor.advance.kind = some .nil := rfl
  have hinner : rules.chain ⟨s.cursor.advance, 1⟩ = .ok (e, ⟨s.cursor.advance.advance, 1⟩) := by
    rw [chain_eq, primary_of_literal rules hnil, literal_eq]
    exact links_eq rules 0 e ⟨s.cursor.advance.advance, 1⟩
  have hmark : s.cursor.atMark '(' = true := rfl
  have hread : rules.parenthesized s (Cursor.atEnd_eq_false_of_atMark hmark) = .ok (e, t) := by
    rw [parenthesized_eq]
    show rules.chain ⟨s.cursor.advance, 1⟩ >>= _ = _
    rw [hinner]
    rfl
  have hchain : rules.chain s = .ok (e, t) := by
    rw [chain_eq, primary_of_atMark rules hmark, hread]
    exact links_eq rules 0 e t
  have hskip : t.skipSeparators = t := by
    rw [ParseState.skipSeparators, Cursor.skipSeparators]
    rfl
  have hpass : rules.Pass (.program [] s) (.program [e] t) := hskip ▸ .program rfl hchain
  have hone : rules.Passes 1 (.program [] s) (.program [e] t) := .more hpass (.none _)
  obtain ⟨hforward, v, hv, hclose⟩ := hparenthesized s _ e t hread
  exact ⟨⟨_, hread⟩, hforward, ⟨v, hv, hclose, hexit s v hv⟩, hone, hpasses 1 _ _ hone⟩

end ParseRules

end UiScript
