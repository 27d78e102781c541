/-
What is derived is read. If a list of tokens lies ahead that has a
derivation, greedy before what follows the list, and if all arguments in the
expression that it stands for are in order, then the production reads the
list, to its end, and gives that expression, unless one of the checks on the
way fails; then it is the first one that does.

# The induction

It goes by the structure of the derivation, one case for each constructor.
What lies ahead (`Ahead`) is handed to the parts of a derivation from left
to right: the first part lies before the tokens of the second (`Ahead.left`),
and the second lies ahead once the first is read (`Ahead.right`). What is
checked adds up in the same way (`Inspected.bind`). Rules come in with the
checks only, so a derivation says what is read under any of them.

# Main statements

* `chain_inspected`: an expression that has a derivation is read, under
  inspection.
* `readProgram_inspected`: so are the statements of a program.
* `readProgram_more`: a statement within the limits that is admitted is read.
-/
import UiScript.Proofs.Grammar.Limits
import UiScript.Proofs.Grammar.Soundness

namespace UiScript

open Token (mark front)

/-- From `s` to `t` the tokens `ts` are passed, and as many delimiters are
open as before. -/
structure ParseState.Reaches (s : ParseState) (ts : List Token) (t : ParseState) : Prop where
  passes : s.cursor.Passes ts t.cursor
  level : t.depth = s.depth

/-- Two parts that are read one behind the other are read together. -/
theorem ParseState.Reaches.trans {s t u : ParseState} {ts us : List Token} (h : s.Reaches ts t)
    (k : t.Reaches us u) : s.Reaches (ts ++ us) u :=
  ⟨h.passes.trans k.passes, k.level.trans h.level⟩

-- =================================================================== what lies ahead

namespace ParseState

/-- The tokens `ts` lie ahead of `s`, inside `level` delimiters; `rest`
follows them, and they are greedy before it. -/
structure Ahead (s : ParseState) (level : Nat) (ts rest : List Token)
    (greedy : Token.Kind → Prop) : Prop where
  rests : s.cursor.Rests
  seen : s.cursor.seen = ts ++ rest
  level : s.depth = level
  greedy : greedy (front .endOfInput rest)

/-- The state behind an opening token, one level deeper. -/
def inside (s : ParseState) : ParseState := ⟨s.advance.cursor, s.depth + 1⟩

namespace Ahead

variable {s t : ParseState} {level : Nat} {ts us rest : List Token}
  {greedy g₁ g₂ : Token.Kind → Prop}

/-- The kind under the cursor is that of the first token ahead, or of what
follows if none is. -/
theorem kind (h : s.Ahead level ts rest greedy) :
    s.cursor.kind = front (front .endOfInput rest) ts := by
  rw [Cursor.kind_eq_front h.rests, h.seen, Token.front_append]

/-- The first token ahead stands under the cursor. -/
theorem current {u : Token} (h : s.Ahead level (u :: us) rest greedy) : s.cursor.current = u := by
  rw [Cursor.current_eq h.rests, h.seen]
  rfl

/-- What comes first lies before what comes next. -/
theorem left (h : s.Ahead level (ts ++ us) rest fun next => g₁ (front next us) ∧ g₂ next) :
    s.Ahead level ts (us ++ rest) g₁ := by
  refine ⟨h.rests, ?_, h.level, ?_⟩
  · rw [h.seen, List.append_assoc]
  · rw [Token.front_append]
    exact h.greedy.1

/-- What comes next lies ahead when what comes first is read. -/
theorem right (h : s.Ahead level (ts ++ us) rest fun next => g₁ (front next us) ∧ g₂ next)
    (k : s.Reaches ts t) : t.Ahead level us rest g₂ := by
  refine ⟨k.passes.rests, k.passes.seen_eq ?_, k.level.trans h.level, h.greedy.2⟩
  rw [h.seen, List.append_assoc]

/-- A token that lies ahead is passed. -/
theorem token {u : Token} (h : s.Ahead level (u :: us) rest greedy) (hu : u.kind.isEnd = false) :
    s.Reaches [u] s.advance ∧ s.advance.Ahead level us rest greedy := by
  obtain ⟨hpasses, hseen⟩ := Cursor.advance_passes_of_seen h.rests h.seen hu
  exact ⟨⟨hpasses, rfl⟩, ⟨hpasses.rests, hseen, h.level, h.greedy⟩⟩

/-- What lies between an opening token and a closing one lies ahead one level
deeper, if that is not too deep; and when it is read all three parts are. -/
theorem delimited (rules : ParseRules) {u v : Token}
    (h : s.Ahead level (u :: (ts ++ [v])) rest fun _ => greedy v.kind)
    (hu : u.kind.isEnd = false) (hv : v.kind.isEnd = false) :
    rules.Inspected [.load (.opening (level + 1) u.span (front v.kind ts))]
        (s.advance.open? rules s.cursor.span) s.inside
      ∧ s.inside.Ahead (level + 1) ts (v :: rest) greedy
      ∧ ∀ w, s.inside.Reaches ts w →
        w.cursor.current = v ∧ s.Reaches (u :: (ts ++ [v])) w.advance.close := by
  obtain ⟨hfirst, hnext⟩ := h.token hu
  have hseen : s.advance.cursor.seen = ts ++ v :: rest := by
    have := hnext.seen
    rwa [List.append_assoc] at this
  refine ⟨?_, ⟨hnext.rests, hseen, congrArg (· + 1) h.level, h.greedy⟩, ?_⟩
  · have hkind : s.advance.cursor.kind = front v.kind ts := by
      rw [Cursor.kind_eq_front hnext.rests, hseen, Token.front_append]
      rfl
    have hspan : s.cursor.span = u.span := by rw [Cursor.span, h.current]
    obtain rfl : s.depth = level := h.level
    rw [ParseRules.open?_eq_examine, hkind, hspan]
    exact (ParseRules.examine_inspected _).before rfl
  · intro w hw
    have hleft : w.cursor.seen = v :: rest := hw.passes.seen_eq hseen
    refine ⟨?_, ?_, ?_⟩
    · rw [Cursor.current_eq hw.passes.rests, hleft]
      rfl
    · obtain ⟨hlast, -⟩ := Cursor.advance_passes_of_seen hw.passes.rests hleft hv
      exact hfirst.passes.trans (hw.passes.trans hlast)
    · have hlevel : w.depth = s.depth + 1 := hw.level
      show w.depth - 1 = s.depth
      omega

/-- The separators that lie ahead are skipped. -/
theorem skip {spans : List Span} (h : s.Ahead level (spans.map (mark ';') ++ us) rest greedy)
    (hus : front (front .endOfInput rest) us ≠ .punctuation ';') :
    s.Reaches (spans.map (mark ';')) s.skipSeparators
      ∧ s.skipSeparators.Ahead level us rest greedy := by
  have hseen := h.seen
  rw [List.append_assoc] at hseen
  obtain ⟨hpasses, hleft⟩ := Cursor.skipSeparators_passes_of_seen h.rests hseen
    (by rwa [Token.front_append])
  exact ⟨⟨hpasses, rfl⟩, ⟨hpasses.rests, hleft, h.level, h.greedy⟩⟩

/-- The separators before a statement are skipped, and then an expression
starts. -/
theorem skip_statement {spans : List Span} {statement : Derivation.Chain}
    (h : s.Ahead level (spans.map (mark ';') ++ (statement.tokens ++ us)) rest greedy) :
    s.Reaches (spans.map (mark ';')) s.skipSeparators
      ∧ s.skipSeparators.Ahead level (statement.tokens ++ us) rest greedy
      ∧ Derivation.StartsExpression s.skipSeparators.cursor.kind := by
  have hstarts := statement.front_tokens (front (front .endOfInput rest) us)
  rw [← Token.front_append] at hstarts
  obtain ⟨hskip, hnext⟩ := h.skip fun hmark => by
    rw [hmark] at hstarts
    cases hstarts.eq_of_mark
  exact ⟨hskip, hnext, hnext.kind ▸ hstarts⟩

end Ahead

end ParseState

namespace ParseRules

open UiScript.Derivation (Fence)

variable {rules : ParseRules} {s t : ParseState}

-- =================================================================== order

/-- What links are put on is in order with the whole. -/
theorem orderly_of_onto (d : Derivation.Links) {e : Expr} (h : Orderly (d.onto e)) : Orderly e := by
  match d with
  | .none => exact h
  | .more _ (.mk ..) ds => exact (orderly_call_iff.1 (orderly_of_onto ds h)).1 e rfl

/-- A closing mark that is there is passed. -/
theorem expectClosing_of_closesAt {delimiter : Delimiter} {opened : Span}
    (h : delimiter.closesAt s.cursor = true) : s.expectClosing delimiter opened = .ok s.advance :=
  if_pos h

/-- What stands under the cursor tells the kind there. -/
theorem kind_eq_of_current {c : Cursor} {u : Token} (h : c.current = u) : c.kind = u.kind := by
  rw [Cursor.kind, h]

/-- What stands under the cursor tells the span there. -/
theorem span_eq_of_current {c : Cursor} {u : Token} (h : c.current = u) : c.span = u.span := by
  rw [Cursor.span, h]

/-- What stands under the cursor tells whether it is a mark. -/
theorem atMark_of_current {c : Cursor} {m : Char} {span : Span} (h : c.current = mark m span) :
    c.atMark m = true :=
  Token.Kind.isMark_iff.2 (kind_eq_of_current h)

/-- Where an argument is due, the list does not end. -/
theorem not_closed_of_starts {c : Cursor} (h : Derivation.StartsExpression c.kind) :
    (Delimiter.arguments.closesAt c || c.atEnd) = false := by
  rw [Bool.or_eq_false_iff]
  constructor
  · refine Bool.eq_false_iff.2 fun hmark => ?_
    rw [Token.Kind.isMark_iff.1 hmark] at h
    cases h.eq_of_mark
  · exact h.isEnd_eq_false

-- ============================================================== derivations

mutual
/-- An expression that has a derivation is read, under inspection. The checks
on the way are those of the derivation, in its order, and if they pass the
cursor stands behind its last token. -/
theorem chain_inspected (d : Derivation.Chain) {level : Nat} {s : ParseState} {rest : List Token}
    (h : s.Ahead level d.tokens rest d.Greedy) (hnext : front .endOfInput rest ≠ .punctuation '.')
    (horder : Orderly d.expr) :
    ∃ t, rules.Inspected (d.checks level) (rules.chain s) (d.expr, t) ∧ s.Reaches d.tokens t := by
  cases d with
  | mk first links =>
    have hahead : s.Ahead level (first.tokens ++ links.tokens) rest
        fun next => first.Greedy (front next links.tokens) ∧ links.Greedy next := h
    obtain ⟨t, hprimary, ht⟩ := primary_inspected first hahead.left (orderly_of_onto links horder)
    obtain ⟨u, hok, hu⟩ := links_inspected links 0 (hahead.right ht) hnext horder
    refine ⟨u, ?_, ht.trans hu⟩
    rw [chain_eq]
    exact hprimary.bind hok

/-- Links are read up to the last one, since no dot follows them, and numbered
on from those before. An expression is in order only if it was before the
links were put on. -/
theorem links_inspected (d : Derivation.Links) (count : Nat) {soFar : Expr} {level : Nat}
    {s : ParseState} {rest : List Token} (h : s.Ahead level d.tokens rest d.Greedy)
    (hnext : front .endOfInput rest ≠ .punctuation '.') (horder : Orderly (d.onto soFar)) :
    ∃ t, rules.Inspected (d.checks level (count + 1)) (rules.links count soFar s) (d.onto soFar, t)
      ∧ s.Reaches d.tokens t := by
  cases d with
  | none =>
    refine ⟨s, Inspected.of_ok ?_, .refl h.rests, rfl⟩
    rw [links_eq, if_neg]
    · rfl
    · intro hmark
      exact hnext (h.kind.symm.trans (Token.Kind.isMark_iff.1 hmark))
  | more point call ds =>
    have hcurrent := h.current
    obtain ⟨hfirst, hahead⟩ := h.token rfl
    have hcall := orderly_of_onto ds horder
    obtain ⟨t, hok, ht⟩ := call_inspected call (some soFar) hahead.left hcall
    obtain ⟨u, hok', hu⟩ := links_inspected ds (count + 1) (hahead.right ht) hnext horder
    refine ⟨u, ?_, hfirst.trans (ht.trans hu)⟩
    rw [links_of_point (atMark_of_current hcurrent), span_eq_of_current hcurrent]
    exact (examine_inspected (.load (.link (count + 1) point))).bind (hok.bind hok')

/-- A primary is read, in each of its forms. In parentheses the checks are
made one level deeper. -/
theorem primary_inspected (d : Derivation.Primary) {level : Nat} {s : ParseState}
    {rest : List Token} (h : s.Ahead level d.tokens rest d.Greedy) (horder : Orderly d.expr) :
    ∃ t, rules.Inspected (d.checks level) (rules.primary s) (d.expr, t)
      ∧ s.Reaches d.tokens t := by
  cases d with
  | call call =>
    obtain ⟨t, hok, ht⟩ := call_inspected call none h horder
    refine ⟨t, ?_, ht⟩
    obtain ⟨name, hname⟩ : ∃ name, s.cursor.kind = .identifier name := by
      obtain ⟨name, span, args, block⟩ := call
      exact ⟨name, kind_eq_of_current (ParseState.Ahead.current h)⟩
    rw [primary_of_identifier rules hname]
    exact hok.before rfl
  | literal value span =>
    have hcurrent := ParseState.Ahead.current h
    have hkind : Literal.ofToken? s.cursor.kind = some value :=
      Literal.ofToken?_eq_some_iff.2 (kind_eq_of_current hcurrent)
    obtain ⟨hreaches, -⟩ := ParseState.Ahead.token h (by cases value <;> rfl)
    refine ⟨s.advance, ?_, hreaches⟩
    rw [primary_of_literal rules hkind, literal_eq, span_eq_of_current hcurrent]
    exact (examine_inspected (.word (.literal value) span)).before rfl
  | parenthesized opened inner closed =>
    have hmark := atMark_of_current (ParseState.Ahead.current h)
    -- the chain inside is inspected one level deeper, in front of the closing parenthesis
    obtain ⟨hopen, hahead, hclose⟩ := ParseState.Ahead.delimited rules h rfl rfl
    obtain ⟨u, hok, hu⟩ := chain_inspected inner hahead (by simp [mark]) horder
    obtain ⟨hcurrent, hreaches⟩ := hclose u hu
    refine ⟨u.advance.close, ?_, hreaches⟩
    rw [primary_of_atMark rules hmark, parenthesized_eq]
    refine hopen.bind (hok.before (bind_eq_ok_iff.2 ⟨u.advance, ?_, rfl⟩))
    exact expectClosing_of_closesAt (atMark_of_current hcurrent)

/-- A call is read: its name is checked, then its arguments and its block are
read. -/
theorem call_inspected (d : Derivation.Call) (receiver : Option Expr) {level : Nat}
    {s : ParseState} {rest : List Token} (h : s.Ahead level d.tokens rest d.Greedy)
    (horder : Orderly (.call (d.on receiver))) :
    ∃ t, rules.Inspected (d.checks level) (rules.call receiver s) (d.on receiver, t)
      ∧ s.Reaches d.tokens t := by
  cases d with
  | mk name span args block =>
    obtain ⟨-, hthis, hargs, hblock⟩ := orderly_call_iff.1 horder
    have hcurrent := h.current
    obtain ⟨hfirst, hahead⟩ := h.token rfl
    obtain ⟨t, hok, ht⟩ := arguments_inspected args hahead.left hthis hargs
    obtain ⟨u, hok', hu⟩ := block_inspected block (hahead.right ht) hblock
    have hreaches := hfirst.trans (ht.trans hu)
    refine ⟨u, ?_, hreaches⟩
    have hstop := previousSpan_of_passes hreaches.passes (by simp)
    rw [List.singleton_append] at hstop
    rw [call_of_identifier rules receiver (kind_eq_of_current hcurrent),
      span_eq_of_current hcurrent]
    -- the name is put to the policy before anything after it is read
    refine (examine_inspected (.word (.called name) span)).bind (hok.bind (hok'.before ?_))
    rw [hstop]
    rfl

/-- Arguments are read up to the closing parenthesis; left out, they are not
there to be read, since the derivation is greedy. -/
theorem arguments_inspected (d : Derivation.Arguments) {level : Nat} {s : ParseState}
    {rest : List Token} (h : s.Ahead level d.tokens rest d.Greedy) (horder : InOrder d.values)
    (hvalues : ∀ a ∈ d.values, Orderly a.value) :
    ∃ t, rules.Inspected (d.checks level) (rules.arguments s) (d.values, t)
      ∧ s.Reaches d.tokens t := by
  cases d with
  | none =>
    refine ⟨s, Inspected.of_ok ?_, .refl h.rests, rfl⟩
    rw [arguments_eq, if_neg]
    · rfl
    · intro hmark
      exact h.greedy (h.kind.symm.trans (Token.Kind.isMark_iff.1 hmark))
  | list opened items closed =>
    have hmark := atMark_of_current (ParseState.Ahead.current h)
    obtain ⟨hopen, hahead, hclose⟩ := ParseState.Ahead.delimited rules h rfl rfl
    obtain ⟨u, hok, hu⟩ := argumentList_inspected items [] hahead rfl horder hvalues
    obtain ⟨hcurrent, hreaches⟩ := hclose u hu
    refine ⟨u.advance.close, ?_, hreaches⟩
    rw [arguments_eq, if_pos hmark]
    refine hopen.bind (hok.before (bind_eq_ok_iff.2 ⟨u.advance, ?_, rfl⟩))
    exact expectClosing_of_closesAt (atMark_of_current hcurrent)

/-- A list of arguments is read behind those that were read before, with which
it must be in order: keys are new, and nothing without a key comes behind one. -/
theorem argumentList_inspected (d : Derivation.ArgumentList) (before : List Argument) {level : Nat}
    {s : ParseState} {rest : List Token} (h : s.Ahead level d.tokens rest d.Greedy)
    (hnext : front .endOfInput rest = .punctuation ')')
    (horder : InOrder (before.reverse ++ d.values))
    (hvalues : ∀ a ∈ d.values, Orderly a.value) :
    ∃ t, rules.Inspected (d.checks level) (rules.argumentList before s)
        (before.reverse ++ d.values, t) ∧ s.Reaches d.tokens t := by
  cases d with
  | none =>
    have hcloses : Delimiter.arguments.closesAt s.cursor = true :=
      Token.Kind.isMark_iff.2 (h.kind.trans hnext)
    refine ⟨s, Inspected.of_ok ?_, .refl h.rests, rfl⟩
    rw [argumentList_eq, hcloses, Bool.true_or, if_pos rfl]
    simp [Derivation.ArgumentList.values]
  | last arg =>
    have hahead : s.Ahead level arg.tokens rest arg.Greedy := h
    obtain ⟨t, hok, ht⟩ := argument_inspected arg hahead (by simp [hnext])
      horder (hvalues _ (List.mem_singleton.2 rfl))
    refine ⟨t, ?_, ht⟩
    have hopen := not_closed_of_starts (hahead.kind ▸ arg.front_tokens _)
    rw [argumentList_eq, hopen, if_neg Bool.false_ne_true]
    refine hok.before ?_
    rw [if_neg]
    · simp [Derivation.ArgumentList.values]
    -- a closing parenthesis follows the last argument, and that is no comma
    · intro hcomma
      have hkind : t.cursor.kind = .punctuation ')' := by
        rw [Cursor.kind_eq_front ht.passes.rests, ht.passes.seen_eq h.seen, hnext]
      rw [Cursor.atMark, hkind] at hcomma
      cases hcomma
  | more arg comma ds =>
    have hahead : s.Ahead level arg.tokens (mark ',' comma :: (ds.tokens ++ rest)) arg.Greedy :=
      ParseState.Ahead.left h
    -- the argument that is read now joins those before it
    have hmore : before.reverse ++ arg.value :: ds.values
        = (arg.value :: before).reverse ++ ds.values := by simp
    have horder' : InOrder ((arg.value :: before).reverse ++ ds.values) := hmore ▸ horder
    have hthis := horder'.of_append_left
    rw [List.reverse_cons] at hthis
    obtain ⟨t, hok, ht⟩ := argument_inspected arg hahead (by simp [mark]) hthis
      (hvalues _ List.mem_cons_self)
    have hcomma : t.Ahead level (mark ',' comma :: ds.tokens) rest ds.Greedy :=
      ParseState.Ahead.right h ht
    obtain ⟨hpassed, hahead'⟩ := hcomma.token rfl
    obtain ⟨u, hok', hu⟩ := argumentList_inspected ds (arg.value :: before) hahead' hnext horder'
      fun a ha => hvalues a (List.mem_cons_of_mem _ ha)
    refine ⟨u, ?_, ht.trans (hpassed.trans hu)⟩
    have hopen := not_closed_of_starts (hahead.kind ▸ arg.front_tokens _)
    rw [argumentList_eq, hopen, if_neg Bool.false_ne_true]
    refine hok.bind ?_
    rw [if_pos (atMark_of_current hcomma.current)]
    exact hmore ▸ hok'

/-- An argument is read as a key and a value if a name and a colon are ahead,
and as a value if not. -/
theorem argument_inspected (d : Derivation.Argument) {before : List Argument} {level : Nat}
    {s : ParseState} {rest : List Token} (h : s.Ahead level d.tokens rest d.Greedy)
    (hnext : front .endOfInput rest ≠ .punctuation '.')
    (horder : InOrder (before.reverse ++ [d.value])) (hvalue : Orderly d.value.value) :
    ∃ t, rules.Inspected (d.checks level) (rules.argument before s) (d.value, t)
      ∧ s.Reaches d.tokens t := by
  cases d with
  | positional value =>
    have hkey : keyAt s.cursor = none :=
      (keyAt_eq_none_iff h.rests h.seen value.tokens_ne_nil).2 h.greedy.1
    obtain ⟨-, hnone⟩ := inOrder_append_positional_iff.1 horder
    rw [argumentKeys_reverse, List.reverse_eq_nil_iff] at hnone
    obtain ⟨t, hok, ht⟩ := chain_inspected value ⟨h.rests, h.seen, h.level, h.greedy.2⟩ hnext hvalue
    refine ⟨t, ?_, ht⟩
    rw [argument_of_no_key rules hkey, hnone, if_neg (by simp)]
    exact hok.before rfl
  | named key span colon value =>
    have hcurrent := ParseState.Ahead.current h
    obtain ⟨hfirst, hahead⟩ := ParseState.Ahead.token h rfl
    obtain ⟨hcolon, hahead'⟩ := ParseState.Ahead.token hahead rfl
    have hkey : keyAt s.cursor = some key := by
      refine keyAt_eq_some_iff.2 ⟨kind_eq_of_current hcurrent, ?_⟩
      rw [Cursor.peekKind_eq h.rests, h.seen]
      rfl
    obtain ⟨-, hnew⟩ := inOrder_append_named_iff.1 horder
    rw [argumentKeys_reverse, List.mem_reverse] at hnew
    obtain ⟨t, hok, ht⟩ := chain_inspected value hahead' hnext hvalue
    refine ⟨t, ?_, hfirst.trans (hcolon.trans ht)⟩
    rw [argument_of_keyAt rules hkey, if_neg (by simpa using hnew), span_eq_of_current hcurrent]
    -- a key is put to nothing
    exact hok.before rfl

/-- A block is read between either pair of marks. -/
theorem block_inspected (d : Derivation.Block) {level : Nat} {s : ParseState} {rest : List Token}
    (h : s.Ahead level d.tokens rest d.Greedy)
    (horder : ∀ b, d.value = some b → ∀ e ∈ b.statements, Orderly e) :
    ∃ t, rules.Inspected (d.checks level) (rules.block s) (d.value, t) ∧ s.Reaches d.tokens t := by
  cases d with
  | none =>
    refine ⟨s, Inspected.of_ok (block_of_no_fence fun fence hkind => ?_), .refl h.rests, rfl⟩
    exact h.greedy fence (h.kind.symm.trans hkind)
  | fenced fence opened body closed =>
    have hcurrent := ParseState.Ahead.current h
    obtain ⟨hopen, hahead, hclose⟩ :=
      ParseState.Ahead.delimited rules h fence.isEnd_opening fence.isEnd_closing
    obtain ⟨u, hok, hu⟩ := body_inspected body fence s.cursor.span [] hahead rfl (horder _ rfl)
    obtain ⟨hlast, hreaches⟩ := hclose u hu
    refine ⟨u.advance.close, ?_, hreaches⟩
    have hkind := kind_eq_of_current hcurrent
    rw [block_of_fence hkind, body_eq]
    refine .before (hopen.bind (hok.before rfl)) ?_
    rw [span_eq_of_current hcurrent, span_eq_of_current hlast]
    rfl

/-- The statements of a block are read behind those that were read before, up
to the closing mark. The induction is on the body. -/
theorem body_inspected (d : Derivation.Body) (fence : Fence) (opened : Span) (before : List Expr)
    {level : Nat} {s : ParseState} {rest : List Token} (h : s.Ahead level d.tokens rest d.Greedy)
    (hnext : front .endOfInput rest = fence.closing) (horder : ∀ e ∈ d.exprs, Orderly e) :
    ∃ t, rules.Inspected (d.checks level)
        (rules.statements (fenceDelimiter fence) opened before s) (before.reverse ++ d.exprs, t)
      ∧ s.Reaches d.tokens t := by
  cases d with
  | done separators =>
    have hahead : s.Ahead level (separators.map (mark ';') ++ []) rest fun _ => True := by
      rw [List.append_nil]
      exact h
    obtain ⟨hreaches, hahead'⟩ := hahead.skip (by cases fence <;> simp [hnext, Fence.closing])
    refine ⟨s.skipSeparators, Inspected.of_ok ?_, hreaches⟩
    rw [statements_eq, if_pos (closesAt_fenceDelimiter_iff.2 (hahead'.kind.trans hnext))]
    simp [Derivation.Body.exprs]
  | more separators statement ds =>
    obtain ⟨hskip, hahead, hstarts⟩ := ParseState.Ahead.skip_statement h
    have hpoint : front .endOfInput (ds.tokens ++ rest) ≠ .punctuation '.' := by
      rw [Token.front_append]
      exact ds.front_tokens_ne (by cases fence <;> simp [hnext, Fence.closing])
    obtain ⟨t, hok, ht⟩ := chain_inspected statement (ParseState.Ahead.left hahead) hpoint
      (horder _ List.mem_cons_self)
    obtain ⟨u, hok', hu⟩ := body_inspected ds fence opened (statement.expr :: before)
      (ParseState.Ahead.right hahead ht) hnext fun e he => horder e (List.mem_cons_of_mem _ he)
    refine ⟨u, ?_, hskip.trans (ht.trans hu)⟩
    have hmore : before.reverse ++ statement.expr :: ds.exprs
        = (statement.expr :: before).reverse ++ ds.exprs := by simp
    rw [statements_eq, if_neg, if_neg]
    · exact hok.bind (hmore ▸ hok')
    · rw [Bool.not_eq_true]
      exact hstarts.isEnd_eq_false
    · intro hcloses
      exact hstarts.ne_closing fence (closesAt_fenceDelimiter_iff.1 hcloses)
end

-- ================================================================= programs

variable {level : Nat}

variable (rules) in
/-- The first statement that lies ahead is read under inspection, and the
others lie behind it. -/
theorem readProgram_step {separators : List Span} {statement : Derivation.Chain}
    {ds : Derivation.Body} {rest : List Token}
    (h : s.Ahead level (Derivation.Body.more separators statement ds).tokens rest
      (Derivation.Body.more separators statement ds).Greedy)
    (hnext : front .endOfInput rest ≠ .punctuation '.') (horder : Orderly statement.expr) :
    ∃ t, (∀ before, rules.readProgram before s.skipSeparators
        = rules.chain s.skipSeparators >>= fun p =>
          rules.readProgram (p.1 :: before) p.2.skipSeparators)
      ∧ rules.Inspected (statement.checks level) (rules.chain s.skipSeparators) (statement.expr, t)
      ∧ t.Ahead level ds.tokens rest ds.Greedy := by
  obtain ⟨-, hahead, hstarts⟩ := ParseState.Ahead.skip_statement h
  have hpoint : front .endOfInput (ds.tokens ++ rest) ≠ .punctuation '.' := by
    rw [Token.front_append]
    exact ds.front_tokens_ne hnext
  obtain ⟨t, hok, ht⟩ := chain_inspected statement (ParseState.Ahead.left hahead) hpoint horder
  have hend : ¬ s.skipSeparators.cursor.atEnd = true := by
    rw [Bool.not_eq_true]
    exact hstarts.isEnd_eq_false
  refine ⟨t, fun before => ?_, hok, ParseState.Ahead.right hahead ht⟩
  rw [readProgram_eq, if_neg hend]

/-- The statements of a program that has a derivation are read, to the end,
under inspection. The induction is on the body of the program, statement by
statement. -/
theorem readProgram_inspected (d : Derivation.Body) (before : List Expr) {s : ParseState}
    {rest : List Token} (h : s.Ahead level d.tokens rest d.Greedy)
    (hnext : front .endOfInput rest = .endOfInput) (horder : ∀ e ∈ d.exprs, Orderly e) :
    rules.Inspected (d.checks level) (rules.readProgram before s.skipSeparators)
      (before.reverse ++ d.exprs) := by
  match d with
  | .done separators =>
    have hahead : s.Ahead level (separators.map (mark ';') ++ []) rest fun _ => True := by
      rw [List.append_nil]
      exact h
    obtain ⟨-, hahead'⟩ := hahead.skip (by simp [hnext])
    have hend : s.skipSeparators.cursor.atEnd = true :=
      Token.Kind.isEnd_iff.2 (hahead'.kind.trans hnext)
    refine Inspected.of_ok ?_
    rw [readProgram_eq, if_pos hend]
    simp [Derivation.Body.exprs]
  | .more separators statement ds =>
    obtain ⟨t, hread, hok, hahead⟩ :=
      readProgram_step rules h (by simp [hnext]) (horder _ List.mem_cons_self)
    have hrest := readProgram_inspected ds (statement.expr :: before) hahead hnext
      fun e he => horder e (List.mem_cons_of_mem _ he)
    have hmore : before.reverse ++ statement.expr :: ds.exprs
        = (statement.expr :: before).reverse ++ ds.exprs := by simp
    rw [hread]
    exact hok.bind (hmore ▸ hrest)

-- ============================================================ within the limits

/-- The tokens `ts` are to be read from `s`, and `rest` follows them. They
open `depth` delimiters at once and chain `longest` calls at most, and are
greedy before `rest`. -/
structure Due (rules : ParseRules) (s : ParseState) (ts rest : List Token) (depth longest : Nat)
    (greedy : Token.Kind → Prop) : Prop where
  rests : s.cursor.Rests
  seen : s.cursor.seen = ts ++ rest
  fits : s.depth + depth ≤ rules.options.maxDepth
  short : longest ≤ rules.options.maxChain
  greedy : greedy (front .endOfInput rest)

/-- What is to be read lies ahead. -/
theorem Due.ahead {ts rest : List Token} {depth longest : Nat} {greedy : Token.Kind → Prop}
    (h : rules.Due s ts rest depth longest greedy) : s.Ahead s.depth ts rest greedy :=
  ⟨h.rests, h.seen, rfl, h.greedy⟩

/-- A load that exceeds no limit is admitted. -/
theorem admitLoad_eq_ok {load : Load}
    (h : load.excess? rules.options.maxDepth rules.options.maxChain = none) :
    rules.admitLoad load = .ok () := by
  rw [admitLoad, h]

/-- The first statement that is due is read if it is admitted, and the others
are due behind it. This is a step of the reading, for those who follow it
statement by statement. -/
theorem readProgram_more {separators : List Span} {statement : Derivation.Chain}
    {ds : Derivation.Body} (before : List Expr) {s : ParseState} {rest : List Token}
    (h : rules.Due s (Derivation.Body.more separators statement ds).tokens rest
      (Derivation.Body.more separators statement ds).depth
      (Derivation.Body.more separators statement ds).longest
      (Derivation.Body.more separators statement ds).Greedy)
    (hnext : front .endOfInput rest ≠ .punctuation '.') (hadmits : rules.Admits statement.expr) :
    ∃ t, rules.readProgram before s.skipSeparators
        = rules.readProgram (statement.expr :: before) t.skipSeparators
      ∧ rules.Due t ds.tokens rest ds.depth ds.longest ds.Greedy ∧ t.depth = s.depth := by
  obtain ⟨t, hread, hok, hahead⟩ := readProgram_step rules h.ahead hnext hadmits.orderly
  have hfits : s.depth + max statement.depth ds.depth ≤ rules.options.maxDepth := h.fits
  have hshort : max statement.longest ds.longest ≤ rules.options.maxChain := h.short
  -- no load of the statement is too much, and all of its words are admitted, so the inspection
  -- passes
  have hmeasured : Measured rules.options.maxDepth rules.options.maxChain
      (loadsOf (statement.checks s.depth))
      (s.depth + statement.depth ≤ rules.options.maxDepth
        ∧ statement.longest ≤ rules.options.maxChain) := statement.measured (by omega)
  have hloads := hmeasured.excess_eq_none ⟨by omega, by omega⟩
  have hwords := review_eq_ok_of_admits statement.roles_expr hadmits
  rw [← statement.words_checks s.depth,
    ← inspect_eq_review fun load hload => admitLoad_eq_ok (hloads load hload)] at hwords
  refine ⟨t, ?_, ⟨hahead.rests, hahead.seen, ?_, ?_, hahead.greedy⟩, hahead.level⟩
  · rw [hread, hok, hwords]
    rfl
  · rw [hahead.level]
    omega
  · omega

end ParseRules

end UiScript
