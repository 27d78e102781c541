/-
Two readings compared. The second one reads the tokens of the first, moved
by some bytes, with or without comments among them, and under rules that
may refuse more. It makes the same moves, so that it comes to the same
result, moved by as many bytes, unless it is cut short by a failure that
only the second rules know.

# The invariant

Two states are `Aligned` if what they see is the same but for the move. What
lies behind the cursor matters for one thing only, which is where a call
ends, and there the two agree as soon as both have moved: they have
`Followed` each other.

# Main statements

* `chain_agrees`, `readProgram_agrees`: expressions and programs.
-/
import UiScript.Proofs.Reading.Productions
import UiScript.Proofs.Shift

namespace UiScript

-- ================================================================== agreement

/-- How the second of two results may differ from the first: it is the same,
up to `R`, or the same failure further on, or else it is cut short. -/
def Agree {α β : Type} (d : Nat) (cut : ParseFailure → Prop) (R : α → β → Prop) :
    Except ParseFailure α → Except ParseFailure β → Prop
  | .ok a, .ok b => R a b
  | .error e, .error f => f = e.shift d ∨ cut f
  | .ok _, .error f => cut f
  | .error _, .ok _ => False

variable {α β γ δ : Type} {d : Nat} {cut : ParseFailure → Prop}

/-- What agrees is followed by what agrees. -/
theorem Agree.bind {R : α → β → Prop} {S : γ → δ → Prop} {x : Except ParseFailure α}
    {y : Except ParseFailure β} {f : α → Except ParseFailure γ} {g : β → Except ParseFailure δ}
    (h : Agree d cut R x y) (k : ∀ a b, x = .ok a → R a b → Agree d cut S (f a) (g b)) :
    Agree d cut S (x >>= f) (y >>= g) := by
  cases x with
  | error e =>
    cases y with
    | error e' => exact h
    | ok b => cases h
  | ok a =>
    cases y with
    | error e' =>
      have hcut : cut e' := h
      show Agree d cut S (f a) (.error e')
      cases f a with
      | error e => exact Or.inr hcut
      | ok c => exact hcut
    | ok b => exact k a b rfl h

/-- Results that agree up to one relation agree up to a weaker one. -/
theorem Agree.mono {R S : α → β → Prop} {x : Except ParseFailure α} {y : Except ParseFailure β}
    (h : Agree d cut R x y) (hRS : ∀ a b, R a b → S a b) : Agree d cut S x y := by
  cases x with
  | error e => cases y <;> exact h
  | ok a =>
    cases y with
    | error e => exact h
    | ok b => exact hRS a b h

/-- Failures that agree: the same one, further on. -/
theorem Agree.fail {R : α → β → Prop} {e f : ParseFailure} (h : f = e.shift d) :
    Agree d cut R (.error e) (.error f) := Or.inl h

/-- If nothing is cut short, a failure is the same failure. -/
theorem Agree.of_error {R : α → β → Prop} {e : ParseFailure} {y : Except ParseFailure β}
    (h : Agree d (fun _ => False) R (.error e) y) : y = .error (e.shift d) := by
  cases y with
  | error f =>
    obtain rfl : f = e.shift d := h.resolve_right id
    rfl
  | ok b => cases h

/-- If nothing is cut short, a success is a success. -/
theorem Agree.of_ok {R : α → β → Prop} {a : α} {y : Except ParseFailure β}
    (h : Agree d (fun _ => False) R (.ok a) y) : ∃ b, y = .ok b ∧ R a b := by
  cases y with
  | error f => cases h
  | ok b => exact ⟨b, rfl, h⟩

-- ===================================================================== states

/-- Moving tokens does not change of what kind the next one is. -/
theorem Token.front_map_shift (n : Nat) (next : Kind) (ts : List Token) :
    front next (ts.map (shift n)) = front next ts := by
  cases ts <;> rfl

namespace ParseState

/-- The second state sees what the first one sees, further on. If that is a
way, the end of the input is ahead, for where there is none its place cannot
move. -/
structure Aligned (d : Nat) (s s' : ParseState) : Prop where
  rests : s.cursor.Rests
  rests' : s'.cursor.Rests
  seen : s'.cursor.seen = s.cursor.seen.map (Token.shift d)
  depth : s'.depth = s.depth
  ends : d ≠ 0 → ∃ t ∈ s.cursor.seen, t.kind.isEnd = true

/-- The second state has followed the first one: what lies right behind agrees
as well. -/
structure Followed (d : Nat) (s s' : ParseState) : Prop extends Aligned d s s' where
  previous : s'.cursor.previousSpan = s.cursor.previousSpan.shift d

variable {s s' : ParseState}

/-- The current tokens are the same but for the move; everything that the
parser asks of a state is read off this. -/
theorem Aligned.current (h : Aligned d s s') : s'.cursor.current = s.cursor.current.shift d := by
  rw [Cursor.current_eq h.rests, Cursor.current_eq h.rests', h.seen]
  cases hs : s.cursor.seen with
  | cons t ts => rfl
  | nil =>
    by_cases hd : d = 0
    · subst hd
      exact (Token.shift_zero _).symm
    · obtain ⟨t, ht, -⟩ := h.ends hd
      rw [hs] at ht
      cases ht

theorem Aligned.kind (h : Aligned d s s') : s'.cursor.kind = s.cursor.kind := by
  rw [Cursor.kind, h.current]
  rfl

theorem Aligned.span (h : Aligned d s s') : s'.cursor.span = s.cursor.span.shift d := by
  rw [Cursor.span, h.current]
  rfl

theorem Aligned.atEnd (h : Aligned d s s') : s'.cursor.atEnd = s.cursor.atEnd := by
  rw [Cursor.atEnd, h.kind]
  rfl

theorem Aligned.atMark (h : Aligned d s s') (m : Char) :
    s'.cursor.atMark m = s.cursor.atMark m := by
  rw [Cursor.atMark, h.kind]
  rfl

theorem Aligned.atKeyword (h : Aligned d s s') (w : Keyword) :
    s'.cursor.atKeyword w = s.cursor.atKeyword w := by
  rw [Cursor.atKeyword, h.kind]
  rfl

theorem Aligned.closesAt (h : Aligned d s s') (delimiter : Delimiter) :
    delimiter.closesAt s'.cursor = delimiter.closesAt s.cursor := by
  cases delimiter with
  | keywords => exact h.atKeyword _
  | arguments | parentheses | braces => exact h.atMark _

/-- A key is found in both states or in neither, for a key is told by two
tokens that are seen. -/
theorem Aligned.keyAt (h : Aligned d s s') :
    ParseRules.keyAt s'.cursor = ParseRules.keyAt s.cursor := by
  have hpeek : s'.cursor.peekKind = s.cursor.peekKind := by
    rw [Cursor.peekKind_eq h.rests, Cursor.peekKind_eq h.rests', h.seen, ← List.map_drop,
      Token.front_map_shift]
  unfold ParseRules.keyAt
  rw [h.kind, hpeek]

/-- The same cause at the current token is the same failure, further on. -/
theorem Aligned.failHere (h : Aligned d s s') {cause cause' : SyntaxError.Cause}
    (hcause : cause' = cause.shift d) : s'.failHere cause' = (s.failHere cause).shift d := by
  unfold ParseState.failHere
  rw [h.span, hcause]
  rfl

-- ====================================================================== moves

/-- Away from the end, both states move past the same token. -/
theorem Aligned.advance (h : Aligned d s s') (hend : s.cursor.atEnd = false) :
    Followed d s.advance s'.advance := by
  have hend' : s'.cursor.atEnd = false := h.atEnd.trans hend
  have hpasses := Cursor.advance_passes h.rests hend
  have hpasses' := Cursor.advance_passes h.rests' hend'
  refine ⟨⟨hpasses.rests, hpasses'.rests, ?_, h.depth, ?_⟩, ?_⟩
  · have hseen := h.seen
    rw [hpasses.seen, hpasses'.seen, h.current] at hseen
    exact List.append_cancel_left hseen
  · intro hd
    obtain ⟨t, ht, hkind⟩ := h.ends hd
    rw [hpasses.seen] at ht
    rcases List.mem_append.1 ht with ht | ht
    · rw [hpasses.noEnd t ht] at hkind
      cases hkind
    · exact ⟨t, ht, hkind⟩
  · show s'.cursor.advance.previousSpan = s.cursor.advance.previousSpan.shift d
    rw [Cursor.previousSpan_eq, Cursor.previousSpan_eq, hpasses.behind, hpasses'.behind, h.current]
    rfl

/-- Both states pass as many separators, by induction on what is ahead. -/
theorem Aligned.skipSeparators {s s' : ParseState} (h : Aligned d s s') :
    Aligned d s.skipSeparators s'.skipSeparators := by
  unfold ParseState.skipSeparators
  rw [Cursor.skipSeparators, Cursor.skipSeparators.eq_def s'.cursor]
  by_cases hmark : s.cursor.atMark ';' = true
  · rw [dif_pos hmark, dif_pos ((h.atMark ';').trans hmark)]
    have hend := Cursor.atEnd_eq_false_of_atMark hmark
    have hsize := ParseState.size_advance_lt hend
    exact (h.advance hend).toAligned.skipSeparators
  · rw [dif_neg hmark, dif_neg (by rwa [h.atMark])]
    exact h
termination_by s.size

theorem Followed.close (h : Followed d s s') : Followed d s.close s'.close := by
  refine ⟨⟨h.rests, h.rests', h.seen, ?_, h.ends⟩, h.previous⟩
  show s'.depth - 1 = s.depth - 1
  rw [h.depth]

/-- The second state closes what the first one closes. -/
theorem Aligned.expectClosing (h : Aligned d s s') (delimiter : Delimiter) (opened : Span) :
    Agree d cut (Followed d) (s.expectClosing delimiter opened)
      (s'.expectClosing delimiter (opened.shift d)) := by
  unfold ParseState.expectClosing
  rw [h.closesAt, h.atEnd, h.kind]
  split
  · next hcloses => exact h.advance (Delimiter.atEnd_eq_false_of_closesAt hcloses)
  · split
    · exact .fail (h.failHere rfl)
    · exact .fail (h.failHere rfl)

end ParseState

-- ====================================================================== rules

open ParseState (Aligned Followed)

/-- The second rules have the limits of the first ones, and refuse what these
refuse; what they refuse besides is cut short. -/
structure Stricter (d : Nat) (cut : ParseFailure → Prop) (rules rules' : ParseRules) : Prop where
  maxDepth : rules'.options.maxDepth = rules.options.maxDepth
  maxChain : rules'.options.maxChain = rules.options.maxChain
  name : ∀ name span, Agree d cut (fun _ _ => True)
    (ParseRules.refuse (rules.policy.checkName name span))
    (ParseRules.refuse (rules'.policy.checkName name (span.shift d)))
  literal : ∀ value span, Agree d cut (fun _ _ => True)
    (rules.admitLiteral value span) (rules'.admitLiteral value (span.shift d))

/-- The same rules cut nothing short. -/
theorem Stricter.refl (d : Nat) (rules : ParseRules) :
    Stricter d (fun _ => False) rules rules := by
  refine ⟨rfl, rfl, ?_, ?_⟩
  · intro name span
    unfold Policy.checkName
    cases rules.policy.violation? name with
    | none => exact trivial
    | some violation => exact .fail rfl
  · intro value span
    unfold ParseRules.admitLiteral
    cases value with
    | string text =>
      dsimp only
      split
      · unfold Policy.checkLiteral
        cases Policy.isSuspiciousLiteral text with
        | false => exact trivial
        | true => exact .fail rfl
      · exact trivial
    | _ => exact trivial

namespace ParseRules

variable {rules rules' : ParseRules} {s s' : ParseState} {n : Nat}

/-- Both states open one more delimiter or both have too many open, since the
limits are the same. -/
theorem open_agrees (hrules : Stricter d cut rules rules') (h : Aligned d s s') (opened : Span) :
    Agree d cut (Aligned d) (s.open? rules opened) (s'.open? rules' (opened.shift d)) := by
  unfold ParseState.open?
  rw [hrules.maxDepth, h.depth, h.kind]
  split
  · exact ⟨h.rests, h.rests', h.seen, rfl, h.ends⟩
  · exact .fail rfl

/-- An expression, read from aligned states. -/
def ChainAgrees (d : Nat) (cut : ParseFailure → Prop) (rules rules' : ParseRules)
    (s : ParseState) : Prop :=
  ∀ s', Aligned d s s' → Agree d cut (fun p p' => p'.1 = p.1.shift d ∧ Followed d p.2 p'.2)
    (rules.chain s) (rules'.chain s')

section

variable (hrules : Stricter d cut rules rules')
  (ih : ∀ s, s.size < n → ChainAgrees d cut rules rules' s)

include ih

-- ==================================================================== lists

/-- Arguments agree, given that the keys so far are the same: the keys are all
that the parser remembers of them. -/
theorem argument_agrees {before before' : List Argument} (hn : s.size < n) (h : Aligned d s s')
    (hkeys : argumentKeys before' = argumentKeys before) :
    Agree d cut (fun p p' => p'.1 = p.1.shift d ∧ Followed d p.2 p'.2)
      (rules.argument before s) (rules'.argument before' s') := by
  cases hkey : keyAt s.cursor with
  | some key =>
    rw [argument_of_keyAt rules hkey, argument_of_keyAt rules' (h.keyAt.trans hkey), hkeys]
    split
    · exact .fail (h.failHere rfl)
    · have hend := atEnd_eq_false_of_keyAt hkey
      have hsize := ParseState.size_advance_lt hend
      have hsize' := s.advance.size_advance_le
      have hcolon : s.advance.cursor.atEnd = false := by
        rw [Cursor.atEnd, kind_advance_of_keyAt h.rests hkey]
        rfl
      refine (ih _ (by omega) _ ((h.advance hend).advance hcolon).toAligned).bind ?_
      rintro ⟨value, t⟩ ⟨value', t'⟩ - ⟨rfl, ht⟩
      refine ⟨?_, ht⟩
      show Argument.named key (value.shift d) _ = Argument.named key (value.shift d) _
      rw [h.span, Expr.span_shift, Span.merge_shift]
  | none =>
    rw [argument_of_no_key rules hkey, argument_of_no_key rules' (h.keyAt.trans hkey), hkeys,
      h.kind]
    split
    · exact .fail (h.failHere rfl)
    · refine (ih s hn s' h).bind ?_
      rintro ⟨value, t⟩ ⟨value', t'⟩ - ⟨rfl, ht⟩
      exact ⟨rfl, ht⟩

/-- Lists of arguments agree, by induction on what is ahead in the first
state. -/
theorem argumentList_agrees {s s' : ParseState} {before before' : List Argument} (hn : s.size < n)
    (h : Aligned d s s') (hbefore : before' = before.map (Argument.shift d)) :
    Agree d cut (fun p p' => p'.1 = p.1.map (Argument.shift d) ∧ Aligned d p.2 p'.2)
      (rules.argumentList before s) (rules'.argumentList before' s') := by
  subst hbefore
  rw [argumentList_eq, argumentList_eq, h.closesAt, h.atEnd]
  split
  · exact ⟨(List.map_reverse ..).symm, h⟩
  · refine (argument_agrees ih hn h (argumentKeys_map_shift d before)).bind ?_
    rintro ⟨arg, t⟩ ⟨arg', t'⟩ hok ⟨rfl, ht⟩
    dsimp only
    rw [ht.atMark]
    split
    · next hcomma =>
      have hend := Cursor.atEnd_eq_false_of_atMark hcomma
      have hsize := size_lt_of_argument hok
      have hsize' := ParseState.size_advance_lt hend
      have hless : t.advance.size < n := by omega
      exact argumentList_agrees hless (ht.advance hend).toAligned rfl
    · refine ⟨?_, ht.toAligned⟩
      simp
termination_by s.size

/-- The statements of a block agree, and both end at the closing mark. -/
theorem statements_agrees {s s' : ParseState} (delimiter : Delimiter) (opened : Span)
    {before before' : List Expr} (hn : s.size < n) (h : Aligned d s s')
    (hbefore : before' = before.map (Expr.shift d)) :
    Agree d cut (fun p p' => p'.1 = p.1.map (Expr.shift d) ∧ Aligned d p.2 p'.2
        ∧ delimiter.closesAt p.2.cursor = true)
      (rules.statements delimiter opened before s)
      (rules'.statements delimiter (opened.shift d) before' s') := by
  subst hbefore
  have hskip := h.skipSeparators
  have hsize := ParseState.size_skipSeparators_le s
  rw [statements_eq, statements_eq, hskip.closesAt, hskip.atEnd, hskip.kind]
  split
  · next hcloses => exact ⟨(List.map_reverse ..).symm, hskip, hcloses⟩
  · split
    · exact .fail (hskip.failHere rfl)
    · refine (ih _ (by omega) _ hskip).bind ?_
      rintro ⟨e, t⟩ ⟨e', t'⟩ hok ⟨rfl, ht⟩
      have hsize' := size_lt_of_chain hok
      have hless : t.size < n := by omega
      exact statements_agrees delimiter opened hless ht.toAligned rfl
termination_by s.size

-- =================================================================== delimited

include hrules

/-- Arguments that are left out leave the states where they are, which is why
the states must have followed each other before. -/
theorem arguments_agrees (hn : s.size < n) (h : Followed d s s') :
    Agree d cut (fun p p' => p'.1 = p.1.map (Argument.shift d) ∧ Followed d p.2 p'.2)
      (rules.arguments s) (rules'.arguments s') := by
  rw [arguments_eq, arguments_eq, h.atMark]
  split
  · next hmark =>
    have hend := Cursor.atEnd_eq_false_of_atMark hmark
    rw [h.span]
    refine (open_agrees hrules (h.advance hend).toAligned s.cursor.span).bind ?_
    intro t t' hopen ht
    have hsize := ParseState.size_lt_of_open? hend hopen
    refine (argumentList_agrees ih (by omega) ht rfl).bind ?_
    rintro ⟨args, u⟩ ⟨args', u'⟩ - ⟨rfl, hu⟩
    refine (hu.expectClosing .arguments s.cursor.span).bind ?_
    intro v v' _ hv
    exact ⟨rfl, hv.close⟩
  · exact ⟨rfl, h⟩

/-- Bodies agree; both have passed their closing mark. -/
theorem body_agrees (delimiter : Delimiter) (hn : s.size < n) (h : Aligned d s s')
    (hend : s.cursor.atEnd = false) :
    Agree d cut (fun p p' => p'.1 = p.1.shift d ∧ Followed d p.2 p'.2)
      (rules.body delimiter s hend) (rules'.body delimiter s' (h.atEnd.trans hend)) := by
  rw [body_eq, body_eq, h.span]
  refine (open_agrees hrules (h.advance hend).toAligned s.cursor.span).bind ?_
  intro t t' hopen ht
  have hsize := ParseState.size_lt_of_open? hend hopen
  refine (statements_agrees ih delimiter s.cursor.span (by omega) ht rfl).bind ?_
  rintro ⟨es, u⟩ ⟨es', u'⟩ - ⟨rfl, hu, hcloses⟩
  refine ⟨?_, (hu.advance (Delimiter.atEnd_eq_false_of_closesAt hcloses)).close⟩
  dsimp only
  rw [hu.span, Span.merge_shift]
  rfl

/-- Blocks agree. Where there is none, the states stay where they are. -/
theorem block_agrees (hn : s.size < n) (h : Followed d s s') :
    Agree d cut (fun p p' => p'.1 = p.1.map (Block.shift d) ∧ Followed d p.2 p'.2)
      (rules.block s) (rules'.block s') := by
  cases hkeyword : s.cursor.atKeyword .opensBlock with
  | true =>
    rw [block_of_keyword rules hkeyword, block_of_keyword rules' ((h.atKeyword _).trans hkeyword)]
    refine (body_agrees hrules ih .keywords hn h.toAligned _).bind ?_
    rintro ⟨b, t⟩ ⟨b', t'⟩ - ⟨rfl, ht⟩
    exact ⟨rfl, ht⟩
  | false =>
    have hkeyword' := (h.atKeyword .opensBlock).trans hkeyword
    cases hmark : s.cursor.atMark '\x7b' with
    | true =>
      rw [block_of_mark rules hkeyword hmark,
        block_of_mark rules' hkeyword' ((h.atMark _).trans hmark)]
      refine (body_agrees hrules ih .braces hn h.toAligned _).bind ?_
      rintro ⟨b, t⟩ ⟨b', t'⟩ - ⟨rfl, ht⟩
      exact ⟨rfl, ht⟩
    | false =>
      rw [block_of_other rules hkeyword hmark,
        block_of_other rules' hkeyword' ((h.atMark _).trans hmark)]
      exact ⟨rfl, h⟩

-- ============================================================ calls, chains

/-- Calls agree with their receivers. A call ends where its last token ends,
and for that the two states must have followed each other, which they have
behind the name. -/
theorem call_agrees {receiver receiver' : Option Expr} (hn : s.size ≤ n) (h : Aligned d s s')
    (hreceiver : receiver' = receiver.map (Expr.shift d)) :
    Agree d cut (fun p p' => p'.1 = p.1.shift d ∧ Followed d p.2 p'.2)
      (rules.call receiver s) (rules'.call receiver' s') := by
  subst hreceiver
  by_cases hname : ∃ name, s.cursor.kind = .identifier name
  · obtain ⟨name, hkind⟩ := hname
    rw [call_of_identifier rules receiver hkind,
      call_of_identifier rules' _ (h.kind.trans hkind), h.span]
    have hend := atEnd_eq_false_of_identifier hkind
    have hsize := ParseState.size_advance_lt hend
    refine (hrules.name name s.cursor.span).bind ?_
    intro _ _ _ _
    refine (arguments_agrees hrules ih (by omega) (h.advance hend)).bind ?_
    rintro ⟨args, t⟩ ⟨args', t'⟩ hargs ⟨rfl, ht⟩
    have hless : t.size < n := by
      have := size_le_of_arguments hargs
      omega
    refine (block_agrees hrules ih hless ht).bind ?_
    rintro ⟨b, u⟩ ⟨b', u'⟩ - ⟨rfl, hu⟩
    refine ⟨?_, hu⟩
    dsimp only
    -- the call ends where its last token ends, in both states
    rw [hu.previous]
    cases receiver with
    | none => rfl
    | some r =>
      have hstart : ((Expr.shift d r).span).start = (r.span.shift d).start := by
        rw [Expr.span_shift]
      simp only [Call.shift, Option.map_some, Option.elim_some, hstart]
      rfl
  · have hother : ∀ name, s.cursor.kind ≠ .identifier name := fun name hk => hname ⟨name, hk⟩
    have hother' : ∀ name, s'.cursor.kind ≠ .identifier name := h.kind.symm ▸ hother
    rw [call_of_other rules receiver hother, call_of_other rules' _ hother', h.kind]
    exact .fail (h.failHere rfl)

/-- Chains agree from any point on, by induction on what is ahead. -/
theorem links_agrees {s s' : ParseState} (count : Nat) {soFar soFar' : Expr} (hn : s.size ≤ n)
    (h : Followed d s s') (hsoFar : soFar' = soFar.shift d) :
    Agree d cut (fun p p' => p'.1 = p.1.shift d ∧ Followed d p.2 p'.2)
      (rules.links count soFar s) (rules'.links count soFar' s') := by
  subst hsoFar
  rw [links_eq, links_eq, h.atMark, hrules.maxChain, h.kind]
  split
  · next hpoint =>
    split
    · exact .fail (h.failHere rfl)
    · have hend := Cursor.atEnd_eq_false_of_atMark hpoint
      have hsize := ParseState.size_advance_lt hend
      refine (call_agrees hrules ih (by omega) (h.advance hend).toAligned rfl).bind ?_
      rintro ⟨c, t⟩ ⟨c', t'⟩ hcall ⟨rfl, ht⟩
      have hsize' := size_lt_of_call hcall
      have hless : t.size ≤ n := by omega
      exact links_agrees (count + 1) hless ht (Expr.shift_call d c).symm
  · exact ⟨rfl, h⟩
termination_by s.size

/-- Chains in parentheses agree as the chains inside do. -/
theorem parenthesized_agrees (hn : s.size ≤ n) (h : Aligned d s s')
    (hend : s.cursor.atEnd = false) :
    Agree d cut (fun p p' => p'.1 = p.1.shift d ∧ Followed d p.2 p'.2)
      (rules.parenthesized s hend) (rules'.parenthesized s' (h.atEnd.trans hend)) := by
  rw [parenthesized_eq, parenthesized_eq, h.span]
  refine (open_agrees hrules (h.advance hend).toAligned s.cursor.span).bind ?_
  intro t t' hopen ht
  have hsize := ParseState.size_lt_of_open? hend hopen
  refine (ih t (by omega) t' ht).bind ?_
  rintro ⟨e, u⟩ ⟨e', u'⟩ - ⟨rfl, hu⟩
  refine (hu.expectClosing .parentheses s.cursor.span).bind ?_
  intro v v' _ hv
  exact ⟨rfl, hv.close⟩

/-- Primaries agree: both states see the same token, so both read the same
form. -/
theorem primary_agrees (hn : s.size ≤ n) (h : Aligned d s s') :
    Agree d cut (fun p p' => p'.1 = p.1.shift d ∧ Followed d p.2 p'.2)
      (rules.primary s) (rules'.primary s') := by
  cases hliteral : Literal.ofToken? s.cursor.kind with
  | some value =>
    have hliteral' : Literal.ofToken? s'.cursor.kind = some value := by rw [h.kind, hliteral]
    rw [primary_of_literal rules hliteral, primary_of_literal rules' hliteral', literal_eq,
      literal_eq, h.span]
    refine (hrules.literal value s.cursor.span).bind ?_
    intro _ _ _ _
    exact ⟨rfl, h.advance (atEnd_eq_false_of_literal hliteral)⟩
  | none =>
    by_cases hname : ∃ name, s.cursor.kind = .identifier name
    · obtain ⟨name, hkind⟩ := hname
      rw [primary_of_identifier rules hkind, primary_of_identifier rules' (h.kind.trans hkind)]
      refine (call_agrees hrules ih hn h rfl).bind ?_
      rintro ⟨c, t⟩ ⟨c', t'⟩ - ⟨rfl, ht⟩
      exact ⟨(Expr.shift_call d c).symm, ht⟩
    · have hother : ∀ name, s.cursor.kind ≠ .identifier name := fun name hk => hname ⟨name, hk⟩
      cases hmark : s.cursor.atMark '(' with
      | true =>
        rw [primary_of_atMark rules hmark, primary_of_atMark rules' ((h.atMark _).trans hmark)]
        exact parenthesized_agrees hrules ih hn h _
      | false =>
        have hliteral' : Literal.ofToken? s'.cursor.kind = none := by rw [h.kind, hliteral]
        rw [primary_of_other rules hliteral hother hmark,
          primary_of_other rules' hliteral' (h.kind.symm ▸ hother) ((h.atMark _).trans hmark),
          h.kind]
        exact .fail (h.failHere rfl)

end

-- ================================================================= programs

/-- Expressions that are read from aligned states agree. The induction is on
what is ahead of the first state; every production below it calls chains on
less. -/
theorem chain_agrees (hrules : Stricter d cut rules rules') (s : ParseState) :
    ChainAgrees d cut rules rules' s := by
  induction hn : s.size using Nat.strongRecOn generalizing s with
  | ind n ih =>
    intro s' h
    have ih' : ∀ t, t.size < n → ChainAgrees d cut rules rules' t := fun t ht => ih _ ht t rfl
    rw [chain_eq, chain_eq]
    refine (primary_agrees hrules ih' (by omega) h).bind ?_
    rintro ⟨e, t⟩ ⟨e', t'⟩ hprimary ⟨rfl, ht⟩
    have hless : t.size ≤ n := by
      have := size_lt_of_primary hprimary
      omega
    exact links_agrees hrules ih' 0 hless ht rfl

/-- Programs that are read from aligned states agree, whatever was read
before. The statements that were read before are kept as they are, moved in
the one case. -/
theorem readProgram_agrees (hrules : Stricter d cut rules rules') (before before' : List Expr)
    {s s' : ParseState} (h : Aligned d s s') :
    Agree d cut (fun es es' => ∃ new, es = before.reverse ++ new
        ∧ es' = before'.reverse ++ new.map (Expr.shift d))
      (rules.readProgram before s) (rules'.readProgram before' s') := by
  rw [readProgram_eq, readProgram_eq, h.atEnd]
  split
  · exact ⟨[], by simp, by simp⟩
  · refine (chain_agrees hrules s s' h).bind ?_
    rintro ⟨e, t⟩ ⟨e', t'⟩ hok ⟨rfl, ht⟩
    have hless := size_lt_of_chain hok
    have hsize := ParseState.size_skipSeparators_le t
    refine (readProgram_agrees hrules (e :: before) (e.shift d :: before')
      ht.toAligned.skipSeparators).mono ?_
    rintro es es' ⟨new, rfl, rfl⟩
    exact ⟨e :: new, by simp, by simp⟩
termination_by s.size

end ParseRules

end UiScript
