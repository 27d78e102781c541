/-
Spans nest as the grammar does. What is derived is put together from lists of
tokens that stand one behind the other, so its parts have spans that stand
one behind the other, and the span of the whole reaches from the start of the
first of them to the end of the last token.

# The induction

`Row` says of some tokens that the spans of consecutive parts are stretches
of them, in order, and that everything inside of the parts is nested. A row
next to another one is a row (`Row.beside`), and a call closes the row of its
parts into a single one (`Call.row_on`); the rest follows the productions.

# Main statements

* `Stretch.before`, `Stretch.stop_le`: where a stretch of ordered tokens lies.
* `Program.row`: all spans of a program are stretches of its tokens, and they
  nest.
-/
import UiScript.Proofs.Grammar.Stretches
import UiScript.Proofs.Program.Nodes

namespace UiScript

open Token (mark)

-- ==================================================================== tokens

namespace Token

/-- Tokens none of which is empty, each behind those before it. -/
structure Consecutive (ts : List Token) : Prop where
  nonempty : ∀ t ∈ ts, t.span.start < t.span.stop
  ordered : ts.Pairwise fun t u => t.span.stop ≤ u.span.start

namespace Consecutive

variable {ts us : List Token} {t : Token}

/-- Some of consecutive tokens are consecutive. -/
theorem sublist (h : Consecutive us) (hsub : ts.Sublist us) : Consecutive ts :=
  ⟨fun t ht => h.nonempty t (hsub.subset ht), h.ordered.sublist hsub⟩

theorem left (h : Consecutive (ts ++ us)) : Consecutive ts :=
  h.sublist (List.sublist_append_left ts us)

theorem right (h : Consecutive (ts ++ us)) : Consecutive us :=
  h.sublist (List.sublist_append_right ts us)

theorem tail (h : Consecutive (t :: ts)) : Consecutive ts := h.sublist (List.sublist_cons_self t ts)

end Consecutive

namespace Stretch

variable {ts us : List Token} {s u : Span} {t : Token}

theorem exists_start (h : Stretch ts s) : ∃ t ∈ ts, s.start = t.span.start := by
  obtain ⟨before, t, after, u, rfl, hu, rfl⟩ := h
  exact ⟨t, by simp, rfl⟩

theorem exists_stop (h : Stretch ts s) : ∃ t ∈ ts, s.stop = t.span.stop := by
  obtain ⟨before, t, after, u, rfl, hu, rfl⟩ := h
  exact ⟨u, List.mem_append_right before hu, rfl⟩

/-- A stretch of ordered tokens is not empty. -/
theorem nonempty (h : Stretch ts s) (hts : Consecutive ts) : s.start < s.stop := by
  obtain ⟨before, t, after, u, rfl, hu, rfl⟩ := h
  have ht := hts.nonempty t (by simp)
  rcases List.mem_cons.1 hu with rfl | hu
  · exact ht
  · have hlater := (List.pairwise_cons.1 (List.pairwise_append.1 hts.ordered).2.1).1 u hu
    have := hts.nonempty u (by simp [hu])
    show t.span.start < u.span.stop
    omega

/-- A stretch of tokens lies before a stretch of what follows. -/
theorem before (hs : Stretch ts s) (hu : Stretch us u) (h : Consecutive (ts ++ us)) :
    s.stop ≤ u.start := by
  obtain ⟨t, ht, hstop⟩ := hs.exists_stop
  obtain ⟨v, hv, hstart⟩ := hu.exists_start
  rw [hstop, hstart]
  exact (List.pairwise_append.1 h.ordered).2.2 t ht v hv

/-- A stretch does not start before the first token. -/
theorem le_start (hs : Stretch (t :: ts) s) (h : Consecutive (t :: ts)) :
    t.span.start ≤ s.start := by
  obtain ⟨u, hu, hstart⟩ := hs.exists_start
  rw [hstart]
  rcases List.mem_cons.1 hu with rfl | hu
  · exact Nat.le_refl _
  · have hbefore := (List.pairwise_cons.1 h.ordered).1 u hu
    have := h.nonempty t List.mem_cons_self
    omega

/-- A stretch does not stop behind the last token. -/
theorem stop_le (hs : Stretch (ts ++ [t]) s) (h : Consecutive (ts ++ [t])) :
    s.stop ≤ t.span.stop := by
  obtain ⟨u, hu, hstop⟩ := hs.exists_stop
  rw [hstop]
  rcases List.mem_append.1 hu with hu | hu
  · have hbefore := (List.pairwise_append.1 h.ordered).2.2 u hu t (List.mem_singleton_self t)
    have := h.nonempty t (by simp)
    omega
  · exact Nat.le_of_eq (by rw [List.mem_singleton.1 hu])

/-- From a stretch to one behind it. -/
theorem merge_eq (hs : Stretch ts s) (hu : Stretch ts u) (h : Consecutive ts)
    (hbefore : s.stop ≤ u.start) : s.merge u = ⟨s.start, u.stop⟩ := by
  have hsn := hs.nonempty h
  have hun := hu.nonempty h
  rw [Span.merge, Nat.min_eq_left (by omega), Nat.max_eq_right (by omega)]

/-- Two stretches of the same tokens, one behind the other, span a stretch
together. -/
theorem merge (hs : Stretch ts s) (hu : Stretch ts u) (h : Consecutive ts)
    (hbefore : s.stop ≤ u.start) : Stretch ts (s.merge u) := by
  rw [hs.merge_eq hu h hbefore]
  have hsn := hs.nonempty h
  have hun := hu.nonempty h
  obtain ⟨v, hv, hstop⟩ := hu.exists_stop
  obtain ⟨before, t, after, w, rfl, hw, rfl⟩ := hs
  refine ⟨before, t, after, v, rfl, ?_, by rw [hstop]⟩
  -- the last token does not stand before the first one
  rcases List.mem_append.1 hv with hv | hv
  · have hfirst := (List.pairwise_append.1 h.ordered).2.2 v hv t List.mem_cons_self
    dsimp only at hsn hbefore
    omega
  · exact hv

end Stretch

end Token

namespace Derivation

open Token (Stretch Consecutive)

/-- A stretch does not stop behind the last token. -/
theorem stop_le_lastSpan {ts us : List Token} {s : Span} (hs : Stretch (ts ++ us) s)
    (h : Consecutive (ts ++ us)) (hus : us ≠ []) : s.stop ≤ (lastSpan us).stop := by
  obtain ⟨u, last, rfl⟩ : ∃ vs t, us = vs ++ [t] :=
    ⟨us.dropLast, us.getLast hus, (List.dropLast_concat_getLast hus).symm⟩
  rw [← List.append_assoc] at hs h
  have hlast : lastSpan (u ++ [last]) = last.span := by simp [lastSpan]
  rw [hlast]
  exact hs.stop_le h

-- ====================================================================== rows

/-- Spans of consecutive parts of some tokens, and the nodes inside of these
parts. -/
structure Row (ts : List Token) (spans : List Span) (inner : List Expr) : Prop where
  stretches : ∀ s ∈ spans, Stretch ts s
  ordered : Span.InOrder spans
  nested : ∀ n ∈ inner, n.Nested
  held : ∀ n ∈ inner, ∀ s ∈ n.spans, Stretch ts s

namespace Row

variable {ts us : List Token} {spans more : List Span} {inner others : List Expr}

theorem nil (ts : List Token) : Row ts [] [] :=
  ⟨by simp, List.Pairwise.nil, by simp, by simp⟩

theorem prepend (h : Row ts spans inner) (us : List Token) : Row (us ++ ts) spans inner :=
  ⟨fun s hs => (h.stretches s hs).prepend us, h.ordered, h.nested,
    fun n hn s hs => (h.held n hn s hs).prepend us⟩

theorem append (h : Row ts spans inner) (us : List Token) : Row (ts ++ us) spans inner :=
  ⟨fun s hs => (h.stretches s hs).append us, h.ordered, h.nested,
    fun n hn s hs => (h.held n hn s hs).append us⟩

theorem cons (h : Row ts spans inner) (t : Token) : Row (t :: ts) spans inner := h.prepend [t]

/-- Two rows, one behind the other. -/
theorem beside (h : Row ts spans inner) (hmore : Row us more others)
    (hts : Consecutive (ts ++ us)) :
    Row (ts ++ us) (spans ++ more) (inner ++ others) := by
  refine ⟨?_, ?_, ?_, ?_⟩
  · intro s hs
    rcases List.mem_append.1 hs with hs | hs
    · exact (h.stretches s hs).append us
    · exact (hmore.stretches s hs).prepend ts
  · refine List.pairwise_append.2 ⟨h.ordered, hmore.ordered, fun s hs u hu => ?_⟩
    exact (h.stretches s hs).before (hmore.stretches u hu) hts
  · intro n hn
    exact (List.mem_append.1 hn).elim (h.nested n) (hmore.nested n)
  · intro n hn s hs
    rcases List.mem_append.1 hn with hn | hn
    · exact (h.held n hn s hs).append us
    · exact (hmore.held n hn s hs).prepend ts

/-- Nothing in a row starts before the first of it. -/
theorem first_le {s u : Span} (h : Row ts (s :: spans) inner) (hts : Consecutive ts)
    (hu : u ∈ s :: spans) : s.start ≤ u.start := by
  rcases List.mem_cons.1 hu with rfl | hu
  · exact Nat.le_refl _
  · have hbefore := (List.pairwise_cons.1 h.ordered).1 u hu
    have := (h.stretches s List.mem_cons_self).nonempty hts
    omega

/-- Nothing in a row stops behind the last of it. -/
theorem le_last {s u : Span} (h : Row ts (spans ++ [s]) inner) (hts : Consecutive ts)
    (hu : u ∈ spans ++ [s]) : u.stop ≤ s.stop := by
  rcases List.mem_append.1 hu with hu | hu
  · have hlast := List.mem_singleton_self s
    have hbefore := (List.pairwise_append.1 h.ordered).2.2 u hu s hlast
    have := (h.stretches s (List.mem_append_right _ hlast)).nonempty hts
    omega
  · exact Nat.le_of_eq (by rw [List.mem_singleton.1 hu])

end Row

-- ===================================================================== calls

/-- The parts of a call without a receiver are a row of its tokens, and nested
themselves. -/
structure Call.PartsNested (d : Call) : Prop where
  row : Row d.tokens (d.on none).parts
    (nodesOfArguments (d.on none).args
      ++ (d.on none).block.elim [] fun b => nodesOfStatements b.statements)
  args : ∀ a ∈ (d.on none).args, a.span.Encloses a.value.span
  block : ∀ b, (d.on none).block = some b → b.Nested

/-- The parts of a call on a receiver are those that it has alone, behind the
receiver. -/
theorem Call.parts_on (d : Call) (receiver : Option Expr) :
    (d.on receiver).parts = receiver.toList.map Expr.span ++ (d.on none).parts := by
  obtain ⟨name, span, args, block⟩ := d
  simp [Call.on, UiScript.Call.parts]

/-- The nodes of a call are the call itself, what is in its receiver, and what
is in the rest. -/
theorem Call.mem_nodes_on {d : Call} {receiver : Option Expr} {n : Expr}
    (h : n ∈ (Expr.call (d.on receiver)).nodes) :
    n = .call (d.on receiver) ∨ n ∈ receiver.elim [] Expr.nodes
      ++ (nodesOfArguments (d.on none).args
        ++ (d.on none).block.elim [] fun b => nodesOfStatements b.statements) := by
  obtain ⟨name, span, args, block⟩ := d
  rw [nodes_call] at h
  simp only [Call.on, List.mem_append, List.mem_cons] at h ⊢
  obtain (h | h | h) | h := h
  · exact .inr (.inl h)
  · exact .inl h
  · exact .inr (.inr (.inl h))
  · exact .inr (.inr (.inr h))

/-- The span of a call reaches from what it is chained to up to its own last
token. -/
theorem Call.stretch_on (d : Call) {ts : List Token} {receiver : Option Expr}
    (h : ∀ r ∈ receiver, Stretch ts r.span) : Stretch (ts ++ d.tokens) (d.on receiver).span := by
  cases receiver with
  | none => exact ((Call.stretches_alone d.parts_stretch).span).prepend ts
  | some r =>
    obtain ⟨name, span, args, block⟩ := d
    obtain ⟨u, hu, hlast⟩ :=
      exists_lastSpan ⟨.identifier name, span⟩ (args.tokens ++ block.tokens)
    have hextend := (h r rfl).extend hu
    rw [← hlast] at hextend
    exact hextend

/-- The span of a call encloses the row of its parts. -/
theorem Call.encloses_on {d : Call} {ts : List Token} {receiver : Option Expr} {inner : List Expr}
    (hparts : Row (ts ++ d.tokens) (d.on receiver).parts inner) (hts : Consecutive (ts ++ d.tokens))
    (halone : receiver = none → ts = []) :
    ∀ s ∈ (d.on receiver).parts, (d.on receiver).span.Encloses s := by
  intro s hs
  have hstretch := hparts.stretches s hs
  obtain ⟨name, span, args, block⟩ := d
  refine ⟨?_, stop_le_lastSpan hstretch hts (List.cons_ne_nil _ _)⟩
  cases receiver with
  | none =>
    -- the name is the first token
    obtain rfl := halone rfl
    exact hstretch.le_start hts
  | some r => exact hparts.first_le hts hs

/-- A call after what it is chained to, if it is chained to anything, is one
part. The receiver's span becomes the first part, and the call's span encloses
it. -/
theorem Call.row_on {d : Call} (ts : List Token) (receiver : Option Expr) (hd : d.PartsNested)
    (hts : Consecutive (ts ++ d.tokens)) (halone : receiver = none → ts = [])
    (hreceiver : Row ts (receiver.toList.map Expr.span) (receiver.elim [] Expr.nodes)) :
    Row (ts ++ d.tokens) [(d.on receiver).span] (Expr.call (d.on receiver)).nodes := by
  have hparts := hreceiver.beside hd.row hts
  rw [← d.parts_on] at hparts
  have hwhole : Stretch (ts ++ d.tokens) (d.on receiver).span := by
    refine d.stretch_on fun r hr => hreceiver.stretches r.span ?_
    exact List.mem_map_of_mem (Option.mem_toList.2 hr)
  have hnested : (d.on receiver).Nested := by
    have hencloses := encloses_on hparts hts halone
    obtain ⟨name, span, args, block⟩ := d
    exact ⟨hencloses, hparts.ordered, hd.args, hd.block⟩
  refine ⟨?_, List.pairwise_singleton .., ?_, ?_⟩
  · intro s hs
    rw [List.mem_singleton.1 hs]
    exact hwhole
  · intro n hn
    rcases Call.mem_nodes_on hn with rfl | hn
    · exact hnested
    · exact hparts.nested n hn
  · intro n hn s hs
    rcases Call.mem_nodes_on hn with rfl | hn
    · rcases List.mem_cons.1 hs with rfl | hs
      · exact hwhole
      · exact hparts.stretches s hs
    · exact hparts.held n hn s hs

-- ================================================================ derivations

/-- Arguments in a row, each around its value. -/
structure ArgumentsNested (ts : List Token) (args : List UiScript.Argument) : Prop where
  row : Row ts (args.map Argument.span) (nodesOfArguments args)
  encloses : ∀ a ∈ args, a.span.Encloses a.value.span

/-- Arguments behind arguments are in a row, each around its value. -/
theorem ArgumentsNested.beside {ts us : List Token} {args more : List UiScript.Argument}
    (h : ArgumentsNested ts args) (hmore : ArgumentsNested us more) (hts : Consecutive (ts ++ us)) :
    ArgumentsNested (ts ++ us) (args ++ more) := by
  refine ⟨?_, fun a ha => (List.mem_append.1 ha).elim (h.encloses a) (hmore.encloses a)⟩
  rw [List.map_append, nodesOfArguments_append]
  exact h.row.beside hmore.row hts

mutual
/-- A chain is a row of one: its span is a stretch of its tokens, and all
inside of it is nested. -/
theorem Chain.row : ∀ d : Chain, Consecutive d.tokens → Row d.tokens [d.expr.span] d.expr.nodes
  | .mk first links, hts => links.row (first.row hts.left) hts

/-- The calls of the links go on from what they are chained to. -/
theorem Links.row : ∀ (d : Links) {ts : List Token} {soFar : Expr},
    Row ts [soFar.span] soFar.nodes → Consecutive (ts ++ d.tokens) →
      Row (ts ++ d.tokens) [(d.onto soFar).span] (d.onto soFar).nodes
  | .none, ts, soFar, h, _ => h.append []
  | .more point call rest, ts, soFar, h, hts => by
    have htokens : ts ++ (Links.more point call rest).tokens
        = ts ++ [mark '.' point] ++ call.tokens ++ rest.tokens := by
      simp [Links.tokens]
    rw [htokens] at hts ⊢
    have hcall := Call.row_on _ (some soFar) (call.parts_nested hts.left.right) hts.left nofun
      (h.append [mark '.' point])
    exact rest.row hcall hts

/-- A primary is a row of one. Parentheses only add tokens around what stands
in them. -/
theorem Primary.row : ∀ d : Primary, Consecutive d.tokens → Row d.tokens [d.expr.span] d.expr.nodes
  | .call call, hts =>
    Call.row_on [] none (call.parts_nested hts) hts (fun _ => rfl) (.nil [])
  | .literal value span, _ => by
    have hspan : ∀ s ∈ [span], Stretch [⟨value.kind, span⟩] s := by
      intro s hs
      rw [List.mem_singleton.1 hs]
      exact .token ⟨value.kind, span⟩
    refine ⟨hspan, List.pairwise_singleton .., ?_, ?_⟩
    · intro n hn
      rw [List.mem_singleton.1 hn]
      trivial
    · intro n hn s hs
      rw [List.mem_singleton.1 hn] at hs
      exact hspan s hs
  | .parenthesized opened inner closed, hts =>
    ((inner.row hts.tail.left).append [mark ')' closed]).cons (mark '(' opened)

/-- The arguments and the block of a call are a row, and stand behind its
name. -/
theorem Call.parts_nested : ∀ d : Call, Consecutive d.tokens → d.PartsNested
  | .mk name span args block, hts => by
    have hargs := args.nested hts.tail.left
    obtain ⟨hblock, hstatements⟩ := block.row hts.tail.right
    have hrow := (hargs.row.beside hblock hts.tail).cons ⟨.identifier name, span⟩
    exact ⟨hrow, hargs.encloses, hstatements⟩

theorem Arguments.nested : ∀ d : Arguments, Consecutive d.tokens → ArgumentsNested d.tokens d.values
  | .none, _ => ⟨.nil [], by simp [Arguments.values]⟩
  | .list opened items closed, hts => by
    have hitems := items.nested hts.tail.left
    exact ⟨(hitems.row.append [mark ')' closed]).cons (mark '(' opened), hitems.encloses⟩

/-- The arguments of a list are a row, in the order of the source. -/
theorem ArgumentList.nested : ∀ d : ArgumentList, Consecutive d.tokens →
    ArgumentsNested d.tokens d.values
  | .none, _ => ⟨.nil [], by simp [ArgumentList.values]⟩
  | .last arg, hts => arg.nested hts
  | .more arg comma rest, hts => by
    have hrest := rest.nested hts.right.tail
    have hafter : ArgumentsNested (mark ',' comma :: rest.tokens) rest.values :=
      ⟨hrest.row.cons (mark ',' comma), hrest.encloses⟩
    exact (arg.nested hts.left).beside hafter hts

/-- An argument stands around its value: a key and a colon come before it, if
anything. -/
theorem Argument.nested : ∀ d : Argument, Consecutive d.tokens →
    ArgumentsNested d.tokens [d.value]
  | .positional value, hts => by
    have hvalue := value.row hts
    refine ⟨?_, ?_⟩
    · show Row _ [value.expr.span] (value.expr.nodes ++ [])
      rw [List.append_nil]
      exact hvalue
    · intro a ha
      rw [List.mem_singleton.1 ha]
      exact ⟨Nat.le_refl _, Nat.le_refl _⟩
  | .named key span colon value, hts => by
    have hvalue := (value.row hts.tail.tail).cons (mark ':' colon)
    have hstretch := hvalue.stretches _ (List.mem_singleton_self _)
    have hkey : Stretch [⟨.identifier key, span⟩] span := .token ⟨.identifier key, span⟩
    -- the key ends before the value starts, so the span of both encloses the value
    have hbefore : span.stop ≤ value.expr.span.start := hkey.before hstretch hts
    have hkey := hkey.append (mark ':' colon :: value.tokens)
    have hwhole := hkey.merge (hstretch.cons _) hts hbefore
    have hspan := hkey.merge_eq (hstretch.cons _) hts hbefore
    refine ⟨⟨?_, List.pairwise_singleton .., ?_, ?_⟩, ?_⟩
    · intro s hs
      rw [List.mem_singleton.1 hs]
      exact hwhole
    · show ∀ n ∈ value.expr.nodes ++ [], _
      rw [List.append_nil]
      exact hvalue.nested
    · show ∀ n ∈ value.expr.nodes ++ [], _
      rw [List.append_nil]
      exact (hvalue.cons ⟨.identifier key, span⟩).held
    · intro a ha
      rw [List.mem_singleton.1 ha]
      show (span.merge value.expr.span).Encloses value.expr.span
      rw [hspan]
      exact ⟨(hstretch.cons _).le_start hts, Nat.le_refl _⟩

/-- A block is a row of one, if there is any, and nested inside. -/
theorem Block.row : ∀ d : Block, Consecutive d.tokens →
    Row d.tokens (d.value.toList.map Block.span)
        (d.value.elim [] fun b => nodesOfStatements b.statements)
      ∧ ∀ b, d.value = some b → b.Nested
  | .none, _ => ⟨.nil [], nofun⟩
  | .fenced fence opened body closed, hts => by
    have hbody := body.row hts.tail.left
    have hopened := (Stretch.token ⟨fence.opening, opened⟩).append
      (body.tokens ++ [⟨fence.closing, closed⟩])
    have hclosed := (Stretch.token ⟨fence.closing, closed⟩).prepend
      (⟨fence.opening, opened⟩ :: body.tokens)
    have hbefore : opened.stop ≤ closed.start :=
      (Stretch.token ⟨fence.opening, opened⟩).before
        ((Stretch.token ⟨fence.closing, closed⟩).prepend body.tokens) hts
    have hwhole := hopened.merge hclosed hts hbefore
    have hspan := hopened.merge_eq hclosed hts hbefore
    have hrow := (hbody.append [⟨fence.closing, closed⟩]).cons ⟨fence.opening, opened⟩
    refine ⟨⟨?_, List.pairwise_singleton .., hrow.nested, hrow.held⟩, ?_⟩
    · intro s hs
      rw [List.mem_singleton.1 hs]
      exact hwhole
    · intro b hb
      obtain rfl := Option.some.inj hb
      refine ⟨fun e he => ?_, hbody.ordered⟩
      have hstretch := hrow.stretches e.span (List.mem_map_of_mem he)
      have hclosing : Stretch (⟨fence.opening, opened⟩ :: body.tokens
        ++ [⟨fence.closing, closed⟩]) e.span := hstretch
      show (opened.merge closed).Encloses e.span
      rw [hspan]
      exact ⟨hstretch.le_start hts, hclosing.stop_le hts⟩

/-- The statements of a body are a row, in the order of the source. -/
theorem Body.row : ∀ d : Body, Consecutive d.tokens →
    Row d.tokens (d.exprs.map Expr.span) (nodesOfStatements d.exprs)
  | .done _, _ => .nil _
  | .more separators statement rest, hts =>
    ((statement.row hts.right.left).beside (rest.row hts.right.right) hts.right).prepend
      (separators.map (mark ';'))
end

/-- Statements in a row, from the first to the last, are a sequence. -/
theorem Row.sequence {ts : List Token} {first last : Expr} {init : List Expr}
    (h : Row ts ((first :: (init ++ [last])).map Expr.span)
      (nodesOfStatements (first :: (init ++ [last])))) (hts : Consecutive ts) :
    Row ts [first.span.merge last.span]
      (Expr.sequence ⟨first :: (init ++ [last]), first.span.merge last.span⟩).nodes := by
  have hmem {e : Expr} (he : e ∈ first :: (init ++ [last])) : Stretch ts e.span :=
    h.stretches e.span (List.mem_map_of_mem he)
  have hfirst := hmem List.mem_cons_self
  have hlast := hmem (List.mem_cons_of_mem _ (List.mem_append_right _ (List.mem_singleton_self _)))
  have hbefore : first.span.stop ≤ last.span.start :=
    (List.pairwise_cons.1 (List.pairwise_map.1 h.ordered)).1 last (by simp)
  have hspan := hfirst.merge_eq hlast hts hbefore
  have hwhole := hfirst.merge hlast hts hbefore
  have hnested : Block.Nested ⟨first :: (init ++ [last]), first.span.merge last.span⟩ := by
    refine ⟨fun e he => ?_, h.ordered⟩
    have hmember := List.mem_map_of_mem (f := Expr.span) he
    rw [hspan]
    refine ⟨h.first_le hts hmember, ?_⟩
    -- the same row, taken apart at its other end
    rw [← List.cons_append, List.map_append] at h hmember
    exact h.le_last hts hmember
  rw [nodes_sequence]
  refine ⟨?_, List.pairwise_singleton .., ?_, ?_⟩
  · intro s hs
    rw [List.mem_singleton.1 hs]
    exact hwhole
  · exact List.forall_mem_cons.2 ⟨hnested, h.nested⟩
  · refine List.forall_mem_cons.2 ⟨?_, h.held⟩
    exact List.forall_mem_cons.2 ⟨hwhole, h.stretches⟩

/-- All spans of a program are stretches of its tokens, and they nest. The
tokens need only be consecutive, which those of a source are. -/
theorem Program.row (d : Program) (hts : Consecutive d.tokens) :
    Row d.tokens [d.expr.span] d.expr.nodes := by
  have hrow : Row d.tokens ((d.first.expr :: d.rest.exprs).map Expr.span)
      (nodesOfStatements (d.first.expr :: d.rest.exprs)) :=
    Body.row (.more d.separators d.first d.rest) hts
  unfold Program.expr
  generalize d.first.expr = first at hrow ⊢
  cases hrest : d.rest.exprs with
  | nil =>
    rw [hrest] at hrow
    show Row _ [first.span] first.nodes
    rw [show nodesOfStatements [first] = first.nodes from List.append_nil _] at hrow
    exact hrow
  | cons e es =>
    rw [hrest] at hrow
    obtain ⟨init, last, hsplit⟩ : ∃ init last, e :: es = init ++ [last] :=
      ⟨_, _, (List.dropLast_concat_getLast (List.cons_ne_nil e es)).symm⟩
    have hroot : ParseRules.rootOf (first :: e :: es)
        = .sequence ⟨first :: (init ++ [last]), first.span.merge last.span⟩ := by
      show Expr.sequence ⟨first :: e :: es, first.span.merge ((e :: es).getLastD first).span⟩ = _
      rw [hsplit]
      simp
    rw [hroot]
    rw [hsplit] at hrow
    exact hrow.sequence hts

end Derivation

end UiScript
