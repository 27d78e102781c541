/-
The spans of a program that is read from a source nest. Each is a piece of
the source, with something in it, from the start of a token to the end of
another one; what a call or a block is put together from lies inside of its
span, in the order of the source, and nothing overlaps.

# Main statements

* `Tiles.consecutive`, `Stretch.within`: tokens that are not the end of the
  input stand in order, and what reaches from one to another is a piece of the
  source.
* `spans_nest`: what is read from a source.
-/
import UiScript.Proofs.Grammar.Acceptance
import UiScript.Proofs.Grammar.Nesting
import UiScript.Proofs.Grammar.Words
import UiScript.Proofs.Scanning.Tiling

namespace UiScript

open Text

/-- A span of a text: it starts and stops between characters, with some in
between. -/
structure Span.Within (s : Span) (cs : List Char) : Prop where
  nonempty : s.start < s.stop
  bounded : s.stop ≤ width cs
  start : IsBoundary cs s.start
  stop : IsBoundary cs s.stop

namespace Token

/-- What is not the end of the input is not empty, so what stands in order is
consecutive. The end of the input is the one token without a character. -/
theorem Tiles.consecutive {position : Nat} {cs : List Char} {all ts : List Token}
    (h : Tiles position cs all) (hsub : ts.Sublist all) (hends : ∀ t ∈ ts, t.kind.isEnd = false) :
    Consecutive ts := by
  refine ⟨fun t ht => ?_, h.ordered.sublist hsub⟩
  obtain ⟨before, text, after, -, htext, hspan⟩ := h.piece (hsub.subset ht)
  have := width_pos (htext (hends t ht))
  rw [hspan]
  show position + width before < position + width before + width text
  omega

/-- A stretch of consecutive tokens of a text is a span of the text. It lies
inside of the text, is not empty, and starts and stops between characters. -/
theorem Stretch.within {cs : List Char} {all ts : List Token} {s : Span} (h : Stretch ts s)
    (htiles : Tiles 0 cs all) (hsub : ts.Sublist all) (hts : Consecutive ts) : s.Within cs := by
  have hnonempty := h.nonempty hts
  obtain ⟨t, ht, hstart⟩ := h.exists_start
  obtain ⟨u, hu, hstop⟩ := h.exists_stop
  obtain ⟨hfirst, -⟩ := htiles.tiled.aligned t (hsub.subset ht)
  obtain ⟨-, hlast⟩ := htiles.tiled.aligned u (hsub.subset hu)
  rw [← hstart] at hfirst
  rw [← hstop] at hlast
  exact ⟨hnonempty, hlast.le_width, hfirst, hlast⟩

end Token

namespace ParseRules

variable {rules : ParseRules} {comments : Bool} {source : String} {tokens : List Token}
  {node : Expr}

/-- What is read from a source nests. Each call holds its receiver, its
arguments and its block, a named argument its value, and a block or a program
of several statements its statements; the parts stand one behind the other in
the order of the source; and every span, of an expression, an argument or a
block, is a span of the source with something in it. -/
theorem spans_nest (hwidth : width source.toList ≤ Span.maxOffset)
    (htokens : Token.ofSourceKeeping comments source = .ok tokens)
    (hparse : rules.parse tokens = .ok node) :
    (∀ n ∈ node.nodes, n.Nested) ∧ ∀ n ∈ node.nodes, ∀ s ∈ n.spans, s.Within source.toList := by
  obtain ⟨all, hscan, rfl⟩ := Token.scan_of_ofSourceKeeping hwidth htokens
  have htiles := Token.scan_tiles hscan
  obtain ⟨-, d, rest, hseen, -, hends, -, rfl⟩ := derivation_of_parse hparse
  have hsub : d.tokens.Sublist all := by
    refine (List.sublist_append_left d.tokens rest).trans ?_
    rw [← hseen]
    exact List.filter_sublist.trans List.filter_sublist
  have hconsecutive := htiles.consecutive hsub hends
  have hrow := d.row hconsecutive
  refine ⟨hrow.nested, fun n hn s hs => ?_⟩
  exact (hrow.held n hn s hs).within htiles hsub hconsecutive

open Token (scan_next scan_nil) in
/-- What the chain is read from. -/
theorem scan_keyedChain :
    Token.scan [] 0 "(nil).box(card, gap: 1) do :small end".toList
      = .ok (keyedChain.tokens ++ [⟨.endOfInput, ⟨37, 37⟩⟩]) := by
  refine scan_next [] rfl rfl rfl rfl rfl ?_
  refine scan_next [] rfl rfl rfl rfl rfl ?_
  refine scan_next [] rfl rfl rfl rfl rfl ?_
  refine scan_next [] rfl rfl rfl rfl rfl ?_
  refine scan_next [] rfl rfl rfl rfl rfl ?_
  refine scan_next [] rfl rfl rfl rfl rfl ?_
  refine scan_next [] rfl rfl rfl rfl rfl ?_
  refine scan_next [] rfl rfl rfl rfl rfl ?_
  refine scan_next [' '] rfl rfl rfl rfl rfl ?_
  refine scan_next [] rfl rfl rfl rfl rfl ?_
  refine scan_next [' '] rfl rfl rfl rfl rfl ?_
  refine scan_next [] rfl rfl rfl rfl rfl ?_
  refine scan_next [' '] rfl rfl rfl rfl rfl ?_
  refine scan_next [' '] rfl rfl rfl rfl rfl ?_
  refine scan_next [' '] rfl rfl rfl rfl rfl ?_
  exact scan_nil _

/-- A chain on something in parentheses, with a named argument and a block. -/
theorem spans_nest_keyedChain :
    let source := "(nil).box(card, gap: 1) do :small end"
    let tokens := keyedChain.tokens ++ [⟨.endOfInput, ⟨37, 37⟩⟩]
    width source.toList ≤ Span.maxOffset ∧ Token.ofSourceKeeping false source = .ok tokens
      ∧ strictly.parse tokens = .ok keyedChain.expr
      ∧ (∀ n ∈ keyedChain.expr.nodes, n.Nested)
      ∧ ∀ n ∈ keyedChain.expr.nodes, ∀ s ∈ n.spans, s.Within source.toList := by
  intro source tokens
  have hwidth : width source.toList ≤ Span.maxOffset := by decide
  have htokens : Token.ofSourceKeeping false source = .ok tokens := by
    rw [Token.ofSourceKeeping_eq_scan false hwidth, scan_keyedChain]
    rfl
  have hparse : strictly.parse tokens = .ok keyedChain.expr :=
    parse_of_derivation rfl rfl rfl ⟨by decide, by decide, by decide, by decide⟩
  exact ⟨hwidth, htokens, hparse, spans_nest hwidth htokens hparse⟩

end ParseRules

end UiScript
