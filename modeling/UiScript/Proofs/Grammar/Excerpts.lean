/-
Where the nodes of a program come from. Each call and each literal is read
from tokens that stand next to each other, from the start of its span to the
end of it. If no receiver along its chain is in parentheses, these tokens are
a chain of their own, and stand for that node.

If one is, the opening parenthesis stands before the first of the tokens,
while the closing one is among them. Parentheses are balanced in whatever is
derived, so the tokens are no program, under no rules.

# The induction

A chain is read from the left. `Leading` says of what has been read so far
that it is what the node is read from, with nothing behind it but closing
parentheses; one more link goes on from there (`Leading.link`), and whether
there is a parenthesis behind decides what the tokens of the call are.

# Main statements

* `Chain.sound_tokens` and its kin: parentheses are balanced, and no mark is
  an equals sign.
* `Program.excerpts`: the nodes of a program are cut from its tokens.
-/
import UiScript.Proofs.Grammar.Continuation
import UiScript.Proofs.Grammar.Nesting

namespace UiScript

open Token (mark front)

namespace Token

-- ============================================================== parentheses

/-- How many parentheses are opened. -/
def opened (ts : List Token) : Nat := ts.countP (·.kind.isMark '(')

/-- How many parentheses are closed. -/
def closed (ts : List Token) : Nat := ts.countP (·.kind.isMark ')')

theorem opened_append (ts us : List Token) : opened (ts ++ us) = opened ts + opened us :=
  List.countP_append

theorem closed_append (ts us : List Token) : closed (ts ++ us) = closed ts + closed us :=
  List.countP_append

/-- Closing parentheses alone open nothing, and close as often as there are of
them. A part of a chain is followed by just such tokens when parentheses stand
around it. -/
theorem count_closing {ts : List Token} (h : ∀ t ∈ ts, t.kind = .punctuation ')') :
    opened ts = 0 ∧ closed ts = ts.length := by
  constructor
  · refine List.countP_eq_zero.2 fun t ht => ?_
    rw [h t ht]
    decide
  · refine List.countP_eq_length.2 fun t ht => ?_
    rw [h t ht]
    rfl

/-- Tokens that close the parentheses that they open, and among which there is
no equals sign. -/
structure Sound (ts : List Token) : Prop where
  balanced : opened ts = closed ts
  noEquals : ∀ t ∈ ts, t.kind ≠ .punctuation '='

namespace Sound

variable {ts us : List Token}

theorem nil : Sound [] := ⟨rfl, by simp⟩

/-- The parentheses of two lists add up, so lists that are sound each are
sound together. -/
theorem append (h : Sound ts) (hus : Sound us) : Sound (ts ++ us) := by
  constructor
  · have hopened := h.balanced
    have hclosed := hus.balanced
    rw [opened_append, closed_append]
    omega
  · intro t ht
    exact (List.mem_append.1 ht).elim (h.noEquals t) (hus.noEquals t)

/-- A token that is no parenthesis and no equals sign. -/
theorem cons {t : Token} (ht : t.kind.isMark '(' = false ∧ t.kind.isMark ')' = false
    ∧ t.kind.isMark '=' = false) (h : Sound ts) : Sound (t :: ts) := by
  obtain ⟨hopen, hclose, hequals⟩ := ht
  constructor
  · have hbalanced := h.balanced
    simpa [opened, closed, hopen, hclose] using hbalanced
  · intro u hu
    rcases List.mem_cons.1 hu with rfl | hu
    · intro hkind
      rw [Token.Kind.isMark_iff.2 hkind] at hequals
      cases hequals
    · exact h.noEquals u hu

/-- What stands in parentheses. -/
theorem enclosed (h : Sound ts) (opening closing : Span) :
    Sound (mark '(' opening :: (ts ++ [mark ')' closing])) := by
  constructor
  · have hbalanced := h.balanced
    simp only [opened, closed, List.countP_cons, List.countP_append, List.countP_nil, mark,
      Token.Kind.isMark] at hbalanced ⊢
    simp
    omega
  · intro t ht
    rcases List.mem_cons.1 ht with rfl | ht
    · simp [mark]
    · rcases List.mem_append.1 ht with ht | ht
      · exact h.noEquals t ht
      · rw [List.mem_singleton.1 ht]
        simp [mark]

/-- Separators are neither parentheses nor equals signs, however many of them
there are. -/
theorem separators (spans : List Span) : Sound (spans.map (mark ';')) := by
  induction spans with
  | nil => exact .nil
  | cons span spans ih => exact .cons ⟨rfl, rfl, rfl⟩ ih

end Sound

-- ================================================================ positions

/-- Tokens from the start of a span to the end of it. -/
structure Reach (ts : List Token) (s : Span) : Prop where
  starts : ts.head?.map (·.span.start) = some s.start
  stops : ts.getLast?.map (·.span.stop) = some s.stop

/-- Right behind a token that stops at an offset stands one of some kind. -/
def Behind (ts : List Token) (offset : Nat) (kind : Kind) : Prop :=
  ∃ before t u after, ts = before ++ t :: u :: after ∧ t.span.stop = offset ∧ u.kind = kind

theorem Behind.append {ts : List Token} {offset : Nat} {kind : Kind} (h : Behind ts offset kind)
    (us : List Token) : Behind (ts ++ us) offset kind := by
  obtain ⟨before, t, u, after, rfl, hstop, hkind⟩ := h
  exact ⟨before, t, u, after ++ us, by simp, hstop, hkind⟩

theorem Behind.prepend {ts : List Token} {offset : Nat} {kind : Kind} (h : Behind ts offset kind)
    (us : List Token) : Behind (us ++ ts) offset kind := by
  obtain ⟨before, t, u, after, rfl, hstop, hkind⟩ := h
  exact ⟨us ++ before, t, u, after, by simp, hstop, hkind⟩

/-- What stands behind an offset in a stretch stands there in every list
around it. -/
theorem Behind.of_within {ts us : List Token} {offset : Nat} {kind : Kind}
    (h : Behind us offset kind) (hus : us <:+: ts) : Behind ts offset kind := by
  obtain ⟨before, after, rfl⟩ := hus
  exact (h.prepend before).append after

namespace Reach

variable {ts : List Token} {s : Span}

/-- What reaches over a span has a token to start with. -/
theorem ne_nil (h : Reach ts s) : ts ≠ [] := by
  rintro rfl
  cases h.starts

/-- More tokens at the end move the end. -/
theorem extend (h : Reach ts s) {us : List Token} {stop : Nat}
    (hstop : us.getLast?.map (·.span.stop) = some stop) : Reach (ts ++ us) ⟨s.start, stop⟩ := by
  constructor
  · obtain ⟨t, ht, hstart⟩ := Option.map_eq_some_iff.1 h.starts
    rw [List.head?_append, ht]
    exact congrArg some hstart
  · obtain ⟨t, ht, hlast⟩ := Option.map_eq_some_iff.1 hstop
    rw [List.getLast?_append, ht]
    exact congrArg some hlast

/-- What comes next stands right behind. -/
theorem behind (h : Reach ts s) (u : Token) (after : List Token) :
    Behind (ts ++ u :: after) s.stop u.kind := by
  obtain ⟨init, t, rfl⟩ : ∃ init t, ts = init ++ [t] :=
    ⟨_, _, (List.dropLast_concat_getLast h.ne_nil).symm⟩
  have hstop := h.stops
  simp only [List.getLast?_append, List.getLast?_singleton, Option.some_or, Option.map_some,
    Option.some.injEq] at hstop
  exact ⟨init, t, u, after, by simp, hstop, rfl⟩

end Reach

end Token

namespace Derivation

open Token (Sound)

/-- A literal is neither a parenthesis nor an equals sign. -/
theorem sound_literal (value : Literal) (span : Span) : Sound [⟨value.kind, span⟩] := by
  refine .cons ?_ .nil
  cases value <;> exact ⟨rfl, rfl, rfl⟩

mutual
/-- Parentheses are balanced in what is derived, and nothing in it is an
equals sign. The induction is on the derivation: parentheses come in pairs,
and no production has an equals sign. -/
theorem Chain.sound_tokens : ∀ d : Chain, Sound d.tokens
  | .mk first links => first.sound_tokens.append links.sound_tokens

theorem Links.sound_tokens : ∀ d : Links, Sound d.tokens
  | .none => .nil
  | .more _ call rest => .cons ⟨rfl, rfl, rfl⟩ (call.sound_tokens.append rest.sound_tokens)

theorem Primary.sound_tokens : ∀ d : Primary, Sound d.tokens
  | .call call => call.sound_tokens
  | .literal value span => sound_literal value span
  | .parenthesized opened inner closed => inner.sound_tokens.enclosed opened closed

/-- A call is its name, and then arguments and a block, which are sound. -/
theorem Call.sound_tokens : ∀ d : Call, Sound d.tokens
  | .mk _ _ args block => .cons ⟨rfl, rfl, rfl⟩ (args.sound_tokens.append block.sound_tokens)

/-- Arguments in parentheses are enclosed by the one pair that their list may
hold beside what is sound. -/
theorem Arguments.sound_tokens : ∀ d : Arguments, Sound d.tokens
  | .none => .nil
  | .list opened items closed => items.sound_tokens.enclosed opened closed

theorem ArgumentList.sound_tokens : ∀ d : ArgumentList, Sound d.tokens
  | .none => .nil
  | .last arg => arg.sound_tokens
  | .more arg _ rest => arg.sound_tokens.append (.cons ⟨rfl, rfl, rfl⟩ rest.sound_tokens)

theorem Argument.sound_tokens : ∀ d : Argument, Sound d.tokens
  | .positional value => value.sound_tokens
  | .named _ _ _ value => .cons ⟨rfl, rfl, rfl⟩ (.cons ⟨rfl, rfl, rfl⟩ value.sound_tokens)

theorem Block.sound_tokens : ∀ d : Block, Sound d.tokens
  | .none => .nil
  | .fenced .keywords _ body _ =>
    .cons ⟨rfl, rfl, rfl⟩ (body.sound_tokens.append (.cons ⟨rfl, rfl, rfl⟩ .nil))
  | .fenced .braces _ body _ =>
    .cons ⟨rfl, rfl, rfl⟩ (body.sound_tokens.append (.cons ⟨rfl, rfl, rfl⟩ .nil))

/-- The separators and the statements of a body are sound each. -/
theorem Body.sound_tokens : ∀ d : Body, Sound d.tokens
  | .done separators => .separators separators
  | .more separators statement rest =>
    (Sound.separators separators).append (statement.sound_tokens.append rest.sound_tokens)
end

/-- A derived program closes as many parentheses as it opens, and holds no
equals sign. This is why tokens with a closing parenthesis too many are no
program, whatever the rules are. -/
theorem Program.sound_tokens (d : Program) : Sound d.tokens :=
  Body.sound_tokens (.more d.separators d.first d.rest)

-- ============================================================= longer chains

/-- One more call at the end. -/
def Links.snoc : Links → Span → Call → Links
  | .none, point, call => .more point call .none
  | .more q first rest, point, call => .more q first (rest.snoc point call)

/-- One more call at the end. -/
def Chain.snoc : Chain → Span → Call → Chain
  | .mk first links, point, call => .mk first (links.snoc point call)

/-- How many calls are chained to the primary. -/
def Chain.count : Chain → Nat
  | .mk _ links => links.count

namespace Links

variable (point : Span) (call : Call)

theorem tokens_snoc (d : Links) :
    (d.snoc point call).tokens = d.tokens ++ mark '.' point :: call.tokens := by
  match d with
  | .none => simp [snoc, tokens]
  | .more q first rest => simp [snoc, tokens, rest.tokens_snoc]

/-- With one more link the whole of what was read before is the receiver of
the new call. -/
theorem onto_snoc (d : Links) (e : Expr) :
    (d.snoc point call).onto e = .call (call.on (some (d.onto e))) := by
  match d with
  | .none => rfl
  | .more q first rest => exact rest.onto_snoc _

theorem count_snoc (d : Links) : (d.snoc point call).count = d.count + 1 := by
  match d with
  | .none => rfl
  | .more q first rest => simp [snoc, count, rest.count_snoc]

theorem depth_snoc (d : Links) : (d.snoc point call).depth = max d.depth call.depth := by
  match d with
  | .none => simp [snoc, depth]
  | .more q first rest =>
    simp only [snoc, depth, rest.depth_snoc]
    omega

/-- The longest chain inside a longer chain was there before, or is inside of
the new call. -/
theorem longest_snoc (d : Links) : (d.snoc point call).longest = max d.longest call.longest := by
  match d with
  | .none => simp [snoc, longest]
  | .more q first rest =>
    simp only [snoc, longest, rest.longest_snoc]
    omega

/-- Links that are greedy in front of a dot stay greedy with the call behind
that dot, in front of whatever the call is greedy in front of. -/
theorem greedy_snoc {d : Links} {next : Token.Kind} (h : d.Greedy (.punctuation '.'))
    (hcall : call.Greedy next) : (d.snoc point call).Greedy next := by
  match d with
  | .none => exact ⟨hcall, trivial⟩
  | .more q first rest =>
    refine ⟨?_, greedy_snoc h.2 hcall⟩
    rw [tokens_snoc, Token.front_append]
    exact h.1

end Links

/-- No call takes a dot, so an excerpt may end where the source goes on with
one. -/
theorem untaken_dot : Untaken (.punctuation '.') := by
  refine ⟨by decide, by decide, fun fence => ?_⟩
  cases fence <;> decide

/-- No call takes the end of the input, so an excerpt may be a program of its
own. -/
theorem untaken_end : Untaken .endOfInput := by
  refine ⟨by decide, by decide, fun fence => ?_⟩
  cases fence <;> decide

-- ================================================================ excerpts

open Token (Reach Behind opened closed)

/-- A chain that may be a program of its own. -/
structure Chain.Stands (d : Chain) (rules : ParseRules) : Prop where
  greedy : d.Greedy .endOfInput
  fits : d.depth ≤ rules.options.maxDepth
  short : d.longest ≤ rules.options.maxChain

/-- Tokens that are a chain of their own, which stands for an expression
without parentheses along its receivers. -/
structure Whole (rules : ParseRules) (us : List Token) (e : Expr) (d : Chain) : Prop where
  tokens : d.tokens = us
  expr : d.expr = e
  stands : d.Stands rules
  bare : ∀ r ∈ e.receivers, Behind us r.span.stop (.punctuation '.')

/-- Tokens of an expression that has a receiver in parentheses: one of these
is not among them. -/
structure Broken (us : List Token) (e : Expr) : Prop where
  unbalanced : opened us < closed us
  enclosed : ∃ r ∈ e.receivers, Behind us r.span.stop (.punctuation ')')

/-- An expression is cut from some tokens: those from its start to its end,
whatever they are. -/
def Excerpt (rules : ParseRules) (ts : List Token) (e : Expr) : Prop :=
  ∃ before us after, ts = before ++ (us ++ after) ∧ Reach us e.span
    ∧ ((∃ d, Whole rules us e d) ∨ Broken us e)

theorem Excerpt.prepend {rules : ParseRules} {ts : List Token} {e : Expr} (h : Excerpt rules ts e)
    (more : List Token) : Excerpt rules (more ++ ts) e := by
  obtain ⟨before, us, after, rfl, hreach, hcut⟩ := h
  exact ⟨more ++ before, us, after, by simp, hreach, hcut⟩

theorem Excerpt.append {rules : ParseRules} {ts : List Token} {e : Expr} (h : Excerpt rules ts e)
    (more : List Token) : Excerpt rules (ts ++ more) e := by
  obtain ⟨before, us, after, rfl, hreach, hcut⟩ := h
  exact ⟨before, us, after ++ more, by simp, hreach, hcut⟩

theorem Excerpt.cons {rules : ParseRules} {ts : List Token} {e : Expr} (h : Excerpt rules ts e)
    (t : Token) : Excerpt rules (t :: ts) e := h.prepend [t]

/-- The receivers along a chain with one more call are the chain itself and
its receivers. -/
theorem Call.receivers_on (d : Call) (r : Expr) :
    (Expr.call (d.on (some r))).receivers = r :: r.receivers := by
  obtain ⟨name, span, args, block⟩ := d
  rfl

theorem Call.receivers_alone (d : Call) : (Expr.call (d.on none)).receivers = [] := by
  obtain ⟨name, span, args, block⟩ := d
  rfl

/-- A call that starts a chain is read from its own tokens. -/
theorem Call.reach_alone (d : Call) : Reach d.tokens (Expr.call (d.on none)).span := by
  obtain ⟨name, span, args, block⟩ := d
  refine ⟨rfl, ?_⟩
  simp [Call.tokens, Call.on, Expr.span, lastSpan, List.getLast?_cons]

/-- A call on something reaches from its start to the last token of the call. -/
theorem Call.reach_on {d : Call} {us : List Token} {r : Expr} (h : Reach us r.span)
    (between : List Token) :
    Reach (us ++ (between ++ d.tokens)) (Expr.call (d.on (some r))).span := by
  obtain ⟨name, span, args, block⟩ := d
  refine h.extend ?_
  rw [List.getLast?_append]
  simp [Call.tokens, lastSpan, List.getLast?_cons]

variable {rules : ParseRules}

/-- The tokens of a chain and those of a call that is chained to it. -/
theorem Whole.link {us : List Token} {e : Expr} {d : Chain} (h : Whole rules us e d)
    (hreach : Reach us e.span) {call : Call} (hcall : call.Greedy .endOfInput)
    (hfits : call.depth ≤ rules.options.maxDepth) (hshort : call.longest ≤ rules.options.maxChain)
    (hcount : d.count + 1 ≤ rules.options.maxChain) (point : Span) :
    Whole rules (us ++ mark '.' point :: call.tokens) (.call (call.on (some e)))
      (d.snoc point call) := by
  obtain ⟨htokens, hexpr, hstands, hbare⟩ := h
  have hdot : Chain.Greedy d (.punctuation '.') := d.greedy_of_untaken hstands.greedy untaken_dot
  have hdepth := hstands.fits
  have hlongest := hstands.short
  obtain ⟨first, links⟩ := d
  simp only [Chain.depth, Chain.longest, Chain.count] at hdepth hlongest hcount
  refine ⟨?_, ?_, ⟨⟨?_, ?_⟩, ?_, ?_⟩, ?_⟩
  · simp [Chain.snoc, Chain.tokens, Links.tokens_snoc, ← htokens]
  · rw [← hexpr]
    exact Links.onto_snoc point call links first.expr
  · rw [Links.tokens_snoc, Token.front_append]
    exact hdot.1
  · exact Links.greedy_snoc point call hdot.2 hcall
  · simp only [Chain.snoc, Chain.depth, Links.depth_snoc]
    omega
  · simp only [Chain.snoc, Chain.longest, Links.longest_snoc, Links.count_snoc]
    omega
  · rw [call.receivers_on]
    refine List.forall_mem_cons.2 ⟨hreach.behind (mark '.' point) call.tokens, fun r hr => ?_⟩
    exact (hbare r hr).append _

/-- What a chain has been read from so far: the tokens of an expression, and
nothing behind them but closing parentheses. Without any of these, the chain
has at most `count` links. -/
def Leading (rules : ParseRules) (ts : List Token) (count : Nat) (e : Expr) : Prop :=
  ∃ before us closers, ts = before ++ (us ++ closers) ∧ Reach us e.span
    ∧ (∀ t ∈ closers, t.kind = .punctuation ')')
    ∧ ((∃ d, Whole rules us e d ∧ (closers = [] → d.count ≤ count)) ∨ Broken us e)

namespace Leading

variable {ts : List Token} {count : Nat} {e : Expr}

/-- What is told of the chain as far as it is read gives the excerpt that
stands for its node. -/
theorem excerpt (h : Leading rules ts count e) : Excerpt rules ts e := by
  obtain ⟨before, us, closers, rfl, hreach, -, hcut⟩ := h
  exact ⟨before, us, closers, rfl, hreach, hcut.imp_left fun ⟨d, hd, _⟩ => ⟨d, hd⟩⟩

/-- In parentheses, there is a parenthesis behind. -/
theorem enclosed (h : Leading rules ts count e) (opening closing : Span) :
    Leading rules (mark '(' opening :: (ts ++ [mark ')' closing])) 0 e := by
  obtain ⟨before, us, closers, rfl, hreach, hclosers, hcut⟩ := h
  refine ⟨mark '(' opening :: before, us, closers ++ [mark ')' closing], by simp, hreach, ?_, ?_⟩
  · intro t ht
    rcases List.mem_append.1 ht with ht | ht
    · exact hclosers t ht
    · rw [List.mem_singleton.1 ht]
      rfl
  · exact hcut.imp_left fun ⟨d, hd, _⟩ => ⟨d, hd, fun hnil => by simp at hnil⟩

/-- The tokens of an expression never open more parentheses than they close. -/
theorem opened_le {us : List Token} (h : (∃ d, Whole rules us e d) ∨ Broken us e) :
    opened us ≤ closed us := by
  rcases h with ⟨d, hd⟩ | hbroken
  · rw [← hd.tokens]
    exact Nat.le_of_eq d.sound_tokens.balanced
  · exact Nat.le_of_lt hbroken.unbalanced

/-- One more link. If there is a parenthesis behind what has been read, the
tokens of the call have it, and not the one that it closes. -/
theorem link (h : Leading rules ts count e) {call : Call} (hcall : call.Greedy .endOfInput)
    (hfits : call.depth ≤ rules.options.maxDepth) (hshort : call.longest ≤ rules.options.maxChain)
    (hcount : count + 1 ≤ rules.options.maxChain) (point : Span) :
    Leading rules (ts ++ mark '.' point :: call.tokens) (count + 1)
      (.call (call.on (some e))) := by
  obtain ⟨before, us, closers, rfl, hreach, hclosers, hcut⟩ := h
  have hreach' := call.reach_on hreach (closers ++ [mark '.' point])
  refine ⟨before, us ++ (closers ++ mark '.' point :: call.tokens), [], by simp, ?_, by simp, ?_⟩
  · simpa using hreach'
  · have hbalanced : opened (mark '.' point :: call.tokens)
        = closed (mark '.' point :: call.tokens) :=
      (Sound.cons ⟨rfl, rfl, rfl⟩ call.sound_tokens).balanced
    have hle : opened us ≤ closed us := opened_le (hcut.imp_left fun ⟨d, hd, _⟩ => ⟨d, hd⟩)
    -- behind closing parentheses the chain has lost its opening one; without any it goes on as
    -- it was
    cases closers with
    | nil =>
      rcases hcut with ⟨d, hd, hlinks⟩ | hbroken
      · have hle := hlinks rfl
        refine .inl ⟨_, hd.link hreach hcall hfits hshort (by omega) point, fun _ => ?_⟩
        obtain ⟨first, links⟩ := d
        simp only [Chain.count, Chain.snoc, Links.count_snoc] at hle ⊢
        omega
      · obtain ⟨r, hr, hbehind⟩ := hbroken.enclosed
        refine .inr ⟨?_, r, ?_, hbehind.append _⟩
        · have hmore := hbroken.unbalanced
          rw [List.nil_append, Token.opened_append, Token.closed_append]
          omega
        · rw [call.receivers_on]
          exact List.mem_cons_of_mem _ hr
    | cons closer closers =>
      obtain ⟨hopened, hclosed⟩ := Token.count_closing hclosers
      have hbehind := hreach.behind closer (closers ++ mark '.' point :: call.tokens)
      rw [hclosers closer List.mem_cons_self] at hbehind
      refine .inr ⟨?_, e, ?_, hbehind⟩
      · simp only [Token.opened_append, Token.closed_append, hopened, hclosed, List.length_cons]
        omega
      · rw [call.receivers_on]
        exact List.mem_cons_self

/-- A primary without parentheses is a chain of its own. -/
theorem alone {first : Primary} (hgreedy : first.Greedy .endOfInput)
    (hfits : first.depth ≤ rules.options.maxDepth)
    (hshort : first.longest ≤ rules.options.maxChain) (hreach : Reach first.tokens first.expr.span)
    (hbare : first.expr.receivers = []) : Leading rules first.tokens 0 first.expr := by
  have hwhole : Whole rules first.tokens first.expr (.mk first .none) := by
    refine ⟨List.append_nil _, rfl, ⟨⟨hgreedy, trivial⟩, ?_, ?_⟩, by simp [hbare]⟩
    · simpa [Chain.depth, Links.depth] using hfits
    · simpa [Chain.longest, Links.count, Links.longest] using hshort
  exact ⟨[], first.tokens, [], by simp, hreach, by simp, .inl ⟨_, hwhole, fun _ => Nat.le_refl 0⟩⟩

end Leading

-- ================================================================ derivations

mutual
/-- A chain leads to its expression, and every node inside of it has its
excerpt. The induction is on the derivation: the primary leads, and each link
goes on from there. -/
theorem Chain.leading : ∀ (d : Chain) {next : Token.Kind}, d.Greedy next →
    d.depth ≤ rules.options.maxDepth → d.longest ≤ rules.options.maxChain →
      Leading rules d.tokens d.count d.expr ∧ ∀ n ∈ d.expr.nodes, Excerpt rules d.tokens n
  | .mk first links, next, hgreedy, hfits, hshort => by
    simp only [Chain.depth, Chain.longest] at hfits hshort
    obtain ⟨hfirst, hnodes⟩ := first.leading hgreedy.1 (by omega) (by omega)
    have hlinks := links.leading hgreedy.2 (by omega) (by omega) (by omega) hfirst hnodes
    rwa [Nat.zero_add] at hlinks

/-- The links go on from what they are chained to. -/
theorem Links.leading : ∀ (d : Links) {next : Token.Kind} {ts : List Token} {count : Nat}
    {soFar : Expr}, d.Greedy next → d.depth ≤ rules.options.maxDepth →
      d.longest ≤ rules.options.maxChain → count + d.count ≤ rules.options.maxChain →
      Leading rules ts count soFar → (∀ n ∈ soFar.nodes, Excerpt rules ts n) →
        Leading rules (ts ++ d.tokens) (count + d.count) (d.onto soFar)
          ∧ ∀ n ∈ (d.onto soFar).nodes, Excerpt rules (ts ++ d.tokens) n
  | .none, next, ts, count, soFar, _, _, _, _, hleading, hnodes => by
    simpa [Links.tokens, Links.onto, Links.count] using ⟨hleading, hnodes⟩
  | .more point call rest, next, ts, count, soFar, hgreedy, hfits, hshort, hcount, hleading,
    hnodes => by
    simp only [Links.depth, Links.longest, Links.count] at hfits hshort hcount
    have hcall := hleading.link (call.greedy_of_untaken hgreedy.1 untaken_end) (by omega) (by omega)
      (by omega) point
    -- the nodes of the new call are the call, those of what it is put on, and those inside of
    -- it
    have hinner : ∀ n ∈ (Expr.call (call.on (some soFar))).nodes,
        Excerpt rules (ts ++ mark '.' point :: call.tokens) n := by
      intro n hn
      rcases Call.mem_nodes_on hn with rfl | hn
      · exact hcall.excerpt
      · rcases List.mem_append.1 hn with hn | hn
        · exact (hnodes n hn).append _
        · exact ((call.inner hgreedy.1 (by omega) (by omega) n hn).cons _).prepend ts
    have hrest := rest.leading hgreedy.2 (by omega) (by omega) (by omega) hcall hinner
    have htokens : ts ++ (Links.more point call rest).tokens
        = ts ++ mark '.' point :: call.tokens ++ rest.tokens := by
      simp [Links.tokens]
    have hlinks : count + (Links.more point call rest).count = count + 1 + rest.count := by
      simp only [Links.count]
      omega
    rw [htokens, hlinks]
    exact hrest

/-- A primary leads to its expression with no links yet. In parentheses, the
closing one stays behind the tokens of the chain inside. -/
theorem Primary.leading : ∀ (d : Primary) {next : Token.Kind}, d.Greedy next →
    d.depth ≤ rules.options.maxDepth → d.longest ≤ rules.options.maxChain →
      Leading rules d.tokens 0 d.expr ∧ ∀ n ∈ d.expr.nodes, Excerpt rules d.tokens n
  | .call call, next, hgreedy, hfits, hshort => by
    have hthis : Leading rules (Primary.call call).tokens 0 (Primary.call call).expr :=
      .alone (call.greedy_of_untaken hgreedy untaken_end) hfits hshort call.reach_alone
        call.receivers_alone
    refine ⟨hthis, fun n hn => ?_⟩
    rcases Call.mem_nodes_on hn with rfl | hn
    · exact hthis.excerpt
    · exact call.inner hgreedy hfits hshort n hn
  | .literal value span, next, _, hfits, hshort => by
    have hthis : Leading rules (Primary.literal value span).tokens 0
        (Primary.literal value span).expr :=
      .alone trivial hfits hshort ⟨rfl, rfl⟩ rfl
    refine ⟨hthis, fun n hn => ?_⟩
    rw [List.mem_singleton.1 hn]
    exact hthis.excerpt
  | .parenthesized opened inner closed, next, hgreedy, hfits, hshort => by
    simp only [Primary.depth, Primary.longest] at hfits hshort
    obtain ⟨hinner, hnodes⟩ := inner.leading hgreedy (by omega) (by omega)
    exact ⟨hinner.enclosed opened closed, fun n hn => ((hnodes n hn).append _).cons _⟩

/-- What is in the arguments and in the block of a call. -/
theorem Call.inner : ∀ (d : Call) {next : Token.Kind}, d.Greedy next →
    d.depth ≤ rules.options.maxDepth → d.longest ≤ rules.options.maxChain →
      ∀ n ∈ nodesOfArguments (d.on none).args
        ++ (d.on none).block.elim [] (fun b => nodesOfStatements b.statements),
        Excerpt rules d.tokens n
  | .mk name span args block, next, hgreedy, hfits, hshort, n, hn => by
    simp only [Call.depth, Call.longest] at hfits hshort
    rcases List.mem_append.1 hn with hn | hn
    · exact ((args.inner hgreedy.1 (by omega) (by omega) n hn).append _).cons _
    · exact ((block.inner hgreedy.2 (by omega) (by omega) n hn).prepend args.tokens).cons _

/-- Every node inside of arguments has its excerpt among the tokens of the
arguments. -/
theorem Arguments.inner : ∀ (d : Arguments) {next : Token.Kind}, d.Greedy next →
    d.depth ≤ rules.options.maxDepth → d.longest ≤ rules.options.maxChain →
      ∀ n ∈ nodesOfArguments d.values, Excerpt rules d.tokens n
  | .none, _, _, _, _, n, hn => by cases hn
  | .list opened items closed, next, hgreedy, hfits, hshort, n, hn => by
    simp only [Arguments.depth, Arguments.longest] at hfits hshort
    exact ((items.inner hgreedy (by omega) hshort n hn).append _).cons _

/-- Every node of a list of arguments has its excerpt: in the first one or in
the rest. -/
theorem ArgumentList.inner : ∀ (d : ArgumentList) {next : Token.Kind}, d.Greedy next →
    d.depth ≤ rules.options.maxDepth → d.longest ≤ rules.options.maxChain →
      ∀ n ∈ nodesOfArguments d.values, Excerpt rules d.tokens n
  | .none, _, _, _, _, n, hn => by cases hn
  | .last arg, next, hgreedy, hfits, hshort, n, hn => by
    refine arg.inner hgreedy hfits hshort n ?_
    simpa [ArgumentList.values, nodesOfArguments_eq_flatMap] using hn
  | .more arg comma rest, next, hgreedy, hfits, hshort, n, hn => by
    simp only [ArgumentList.depth, ArgumentList.longest] at hfits hshort
    simp only [ArgumentList.values, nodesOfArguments_eq_flatMap, List.flatMap_cons] at hn
    rcases List.mem_append.1 hn with hn | hn
    · exact (arg.inner hgreedy.1 (by omega) (by omega) n hn).append _
    · rw [← nodesOfArguments_eq_flatMap] at hn
      exact ((rest.inner hgreedy.2 (by omega) (by omega) n hn).cons _).prepend arg.tokens

theorem Argument.inner : ∀ (d : Argument) {next : Token.Kind}, d.Greedy next →
    d.depth ≤ rules.options.maxDepth → d.longest ≤ rules.options.maxChain →
      ∀ n ∈ d.value.value.nodes, Excerpt rules d.tokens n
  | .positional value, _, hgreedy, hfits, hshort, n, hn =>
    (value.leading hgreedy.2 hfits hshort).2 n hn
  | .named _ _ _ value, _, hgreedy, hfits, hshort, n, hn =>
    (((value.leading hgreedy hfits hshort).2 n hn).cons _).cons _

/-- Every node of a block has its excerpt, with either pair of marks around
the body. -/
theorem Block.inner : ∀ (d : Block) {next : Token.Kind}, d.Greedy next →
    d.depth ≤ rules.options.maxDepth → d.longest ≤ rules.options.maxChain →
      ∀ n ∈ d.value.elim [] (fun b => nodesOfStatements b.statements), Excerpt rules d.tokens n
  | .none, _, _, _, _, n, hn => by cases hn
  | .fenced fence opened body closed, next, hgreedy, hfits, hshort, n, hn => by
    simp only [Block.depth, Block.longest] at hfits hshort
    exact ((body.inner hgreedy (by omega) hshort n hn).append _).cons _

/-- Every node of a body has its excerpt: in the first statement or in what
follows it. -/
theorem Body.inner : ∀ (d : Body) {next : Token.Kind}, d.Greedy next →
    d.depth ≤ rules.options.maxDepth → d.longest ≤ rules.options.maxChain →
      ∀ n ∈ nodesOfStatements d.exprs, Excerpt rules d.tokens n
  | .done _, _, _, _, _, n, hn => by cases hn
  | .more separators statement rest, next, hgreedy, hfits, hshort, n, hn => by
    simp only [Body.depth, Body.longest] at hfits hshort
    have hthis : Excerpt rules (statement.tokens ++ rest.tokens) n := by
      rcases List.mem_append.1 hn with hn | hn
      · exact ((statement.leading hgreedy.1 (by omega) (by omega)).2 n hn).append _
      · exact (rest.inner hgreedy.2 (by omega) (by omega) n hn).prepend _
    exact hthis.prepend (separators.map (mark ';'))
end

/-- Every node of a program that the rules let pass is cut from its tokens,
but for the sequence of its statements if there are several. -/
theorem Program.excerpts {d : Program} (h : rules.Passing d) :
    ∀ n ∈ d.expr.nodes, (∃ b, n = .sequence b) ∨ Excerpt rules d.tokens n := by
  intro n hn
  have hstatements : ∀ n ∈ nodesOfStatements (d.first.expr :: d.rest.exprs),
      Excerpt rules d.tokens n :=
    Body.inner (.more d.separators d.first d.rest) h.greedy h.fits h.short
  unfold Program.expr at hn
  cases hrest : d.rest.exprs with
  | nil =>
    rw [hrest] at hn hstatements
    exact .inr (hstatements n (List.mem_append_left [] hn))
  | cons e es =>
    rw [hrest] at hn hstatements
    change n ∈ (Expr.sequence ⟨d.first.expr :: e :: es, _⟩).nodes at hn
    rw [nodes_sequence] at hn
    rcases List.mem_cons.1 hn with rfl | hn
    · exact .inl ⟨_, rfl⟩
    · exact .inr (hstatements n hn)

end Derivation

end UiScript
