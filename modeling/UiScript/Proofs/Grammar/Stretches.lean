/-
Where calls stand. A call reaches from the first token of its receiver, or
from its name if it has none, to the last token of its own, so its span is
that of a stretch of the tokens that make up the program. Parentheses leave
no trace in an expression, and a call on one in parentheses starts behind the
opening one; that is why a stretch may start anywhere among the tokens of its
chain.

# Main statements

* `Token.Stretch.extend`: a stretch that goes on.
* `Chain.stretches`, `Links.stretches`: an expression and all calls in it are
  stretches of what is derived.
* `Program.calls_stretch`: so are the calls of a program.
-/
import UiScript.Proofs.Grammar.Admission
import UiScript.Proofs.Grammar.Derivation

namespace UiScript

open Token (mark)

-- ===================================================================== tokens

namespace Token

/-- A span reaches from the start of one of some tokens to the end of the same
one or of a later one. -/
def Stretch (ts : List Token) (s : Span) : Prop :=
  ∃ before t after u, ts = before ++ t :: after ∧ u ∈ t :: after ∧ s = ⟨t.span.start, u.span.stop⟩

namespace Stretch

variable {ts : List Token} {s : Span}

/-- A token is a stretch of itself. -/
theorem token (t : Token) : Stretch [t] t.span := ⟨[], t, [], t, rfl, List.mem_cons_self, rfl⟩

theorem prepend (h : Stretch ts s) (us : List Token) : Stretch (us ++ ts) s := by
  obtain ⟨before, t, after, u, rfl, hu, rfl⟩ := h
  exact ⟨us ++ before, t, after, u, (List.append_assoc ..).symm, hu, rfl⟩

theorem append (h : Stretch ts s) (us : List Token) : Stretch (ts ++ us) s := by
  obtain ⟨before, t, after, u, rfl, hu, rfl⟩ := h
  refine ⟨before, t, after ++ us, u, List.append_assoc .., ?_, rfl⟩
  exact List.mem_append_left us hu

theorem cons (h : Stretch ts s) (t : Token) : Stretch (t :: ts) s := h.prepend [t]

/-- What starts as a stretch does, and ends with a later token, is a stretch. -/
theorem extend {us : List Token} {u : Token} (h : Stretch ts s) (hu : u ∈ us) :
    Stretch (ts ++ us) ⟨s.start, u.span.stop⟩ := by
  obtain ⟨before, t, after, v, rfl, hv, rfl⟩ := h
  refine ⟨before, t, after ++ us, u, List.append_assoc .., ?_, rfl⟩
  exact List.mem_append_right (t :: after) hu

end Stretch

end Token

namespace Derivation

open Token (Stretch)

/-- The last span of some tokens is that of one of them. -/
theorem exists_lastSpan (t : Token) (ts : List Token) :
    ∃ u ∈ t :: ts, lastSpan (t :: ts) = u.span :=
  ⟨_, List.getLast_mem (List.cons_ne_nil t ts), rfl⟩

-- ================================================================= expressions

/-- An expression and all calls in it are stretches of some tokens. -/
structure Stretches (ts : List Token) (e : Expr) : Prop where
  span : Stretch ts e.span
  calls : ∀ c ∈ e.calls, Stretch ts c.span

theorem Stretches.prepend {ts : List Token} {e : Expr} (h : Stretches ts e) (us : List Token) :
    Stretches (us ++ ts) e :=
  ⟨h.span.prepend us, fun c hc => (h.calls c hc).prepend us⟩

theorem Stretches.append {ts : List Token} {e : Expr} (h : Stretches ts e) (us : List Token) :
    Stretches (ts ++ us) e :=
  ⟨h.span.append us, fun c hc => (h.calls c hc).append us⟩

/-- The calls in the arguments and in the block of a call are stretches of its
tokens. -/
structure Call.PartsStretch (d : Call) : Prop where
  args : ∀ a ∈ (d.on none).args, ∀ c ∈ a.value.calls, Stretch d.tokens c.span
  block : ∀ b, (d.on none).block = some b → ∀ e ∈ b.statements, ∀ c ∈ e.calls,
    Stretch d.tokens c.span

/-- A call without a receiver starts with its name. -/
theorem Call.stretches_alone {d : Call} (h : d.PartsStretch) :
    Stretches d.tokens (.call (d.on none)) := by
  obtain ⟨name, span, args, block⟩ := d
  have hspan : Stretch (Call.mk name span args block).tokens
      ((Call.mk name span args block).on none).span := by
    obtain ⟨u, hu, hlast⟩ := exists_lastSpan ⟨.identifier name, span⟩ (args.tokens ++ block.tokens)
    refine ⟨[], ⟨.identifier name, span⟩, args.tokens ++ block.tokens, u, rfl, hu, ?_⟩
    rw [← hlast]
    rfl
  refine ⟨hspan, forall_calls_call_iff.2 ⟨?_, hspan, h.args, h.block⟩⟩
  intro r hr
  cases hr

/-- A call on a receiver starts where that starts. -/
theorem Call.stretches_on {d : Call} (h : d.PartsStretch) {ts : List Token} {r : Expr}
    (hr : Stretches ts r) : Stretches (ts ++ d.tokens) (.call (d.on (some r))) := by
  obtain ⟨name, span, args, block⟩ := d
  have hspan : Stretch (ts ++ (Call.mk name span args block).tokens)
      ((Call.mk name span args block).on (some r)).span := by
    obtain ⟨u, hu, hlast⟩ := exists_lastSpan ⟨.identifier name, span⟩ (args.tokens ++ block.tokens)
    have hextend := hr.span.extend hu
    rw [← hlast] at hextend
    exact hextend
  refine ⟨hspan, forall_calls_call_iff.2 ⟨?_, hspan, ?_, ?_⟩⟩
  · intro receiver hreceiver c hc
    obtain rfl : r = receiver := Option.some.inj hreceiver
    exact (hr.calls c hc).append _
  · intro a ha c hc
    exact (h.args a ha c hc).prepend ts
  · intro b hb e he c hc
    exact (h.block b hb e he c hc).prepend ts

mutual
/-- An expression and all calls in it are stretches of what is derived. The
induction is on the derivation, where a call reaches from the start of what it
is chained to. -/
theorem Chain.stretches : ∀ d : Chain, Stretches d.tokens d.expr
  | .mk first links => links.stretches first.stretches

/-- The calls of the links go on from what they are chained to. -/
theorem Links.stretches : ∀ (d : Links) {ts : List Token} {soFar : Expr}, Stretches ts soFar →
    Stretches (ts ++ d.tokens) (d.onto soFar)
  | .none, ts, soFar, h => h.append []
  | .more point call rest, ts, soFar, h => by
    have hcall := Call.stretches_on call.parts_stretch (h.append [mark '.' point])
    have hrest := rest.stretches hcall
    simpa [Links.tokens, Links.onto] using hrest

/-- A primary stretches over its tokens, or over those inside of its
parentheses. -/
theorem Primary.stretches : ∀ d : Primary, Stretches d.tokens d.expr
  | .call call => Call.stretches_alone call.parts_stretch
  | .literal value span => by
    refine ⟨Stretch.token ⟨value.kind, span⟩, fun c hc => ?_⟩
    cases hc
  | .parenthesized opened inner closed =>
    (inner.stretches.append [mark ')' closed]).prepend [mark '(' opened]

/-- The arguments and the block of a call have their calls among its tokens. -/
theorem Call.parts_stretch : ∀ d : Call, d.PartsStretch
  | .mk name span args block => by
    refine ⟨?_, ?_⟩
    · intro a ha c hc
      exact ((args.calls_stretch a ha c hc).append block.tokens).cons _
    · intro b hb e he c hc
      exact ((block.calls_stretch b hb e he c hc).prepend args.tokens).cons _

theorem Arguments.calls_stretch : ∀ d : Arguments, ∀ a ∈ d.values, ∀ c ∈ a.value.calls,
    Stretch d.tokens c.span
  | .none, a, ha, c, hc => by cases ha
  | .list opened items closed, a, ha, c, hc =>
    ((items.calls_stretch a ha c hc).append [mark ')' closed]).cons _

theorem ArgumentList.calls_stretch : ∀ d : ArgumentList, ∀ a ∈ d.values, ∀ c ∈ a.value.calls,
    Stretch d.tokens c.span
  | .none, a, ha, c, hc => by cases ha
  | .last arg, a, ha, c, hc => by
    obtain rfl := List.mem_singleton.1 ha
    exact arg.calls_stretch c hc
  | .more arg comma rest, a, ha, c, hc => by
    rcases List.mem_cons.1 ha with rfl | ha
    · exact (arg.calls_stretch c hc).append _
    · exact ((rest.calls_stretch a ha c hc).cons _).prepend arg.tokens

/-- The calls of an argument are those of its value, behind a key if there is
one. -/
theorem Argument.calls_stretch : ∀ d : Argument, ∀ c ∈ d.value.value.calls, Stretch d.tokens c.span
  | .positional value, c, hc => value.stretches.calls c hc
  | .named _ _ _ value, c, hc => ((value.stretches.calls c hc).cons _).cons _

/-- The calls of a block are those of its statements, between its marks. -/
theorem Block.calls_stretch : ∀ d : Block, ∀ b, d.value = some b → ∀ e ∈ b.statements,
    ∀ c ∈ e.calls, Stretch d.tokens c.span
  | .none, b, hb, e, he, c, hc => by cases hb
  | .fenced fence opened body closed, b, hb, e, he, c, hc => by
    obtain rfl := Option.some.inj hb
    exact ((body.calls_stretch e he c hc).append _).cons _

/-- The calls of a body are those of its statements, one behind the other. -/
theorem Body.calls_stretch : ∀ d : Body, ∀ e ∈ d.exprs, ∀ c ∈ e.calls, Stretch d.tokens c.span
  | .done separators, e, he, c, hc => by cases he
  | .more separators statement rest, e, he, c, hc => by
    have hthis : Stretch (statement.tokens ++ rest.tokens) c.span := by
      rcases List.mem_cons.1 he with rfl | he
      · exact (statement.stretches.calls c hc).append rest.tokens
      · exact (rest.calls_stretch e he c hc).prepend statement.tokens
    exact hthis.prepend (separators.map (mark ';'))
end

/-- The calls of a program are stretches of its tokens. This is how the span
of a failure is tied to the tokens of the source. -/
theorem Program.calls_stretch (d : Program) : ∀ c ∈ d.expr.calls, Stretch d.tokens c.span := by
  intro c hc
  obtain ⟨e, he, hce⟩ := mem_calls_rootOf.1 hc
  exact Body.calls_stretch (.more d.separators d.first d.rest) e he c hce

end Derivation

end UiScript
