/-
Scanning step by step: spaces are skipped, and one lexeme is taken after the
other, until nothing is left.

# Main statements

* `scan_step`: one step of a scan.
* `scan_next`, `scan_nil`: the next lexeme, and the end.
* `scan_cases`, `exists_lexeme_of_scan`: what the tokens of a scan come from.
* `scan_induct`: the induction along a scan.
* `scan_lexeme`: a source that is one lexeme has one token.
-/
import UiScript.Token.OfSource

namespace UiScript.Token

open Text
open Lexeme (isSpace)

/-- A scan skips spaces, and takes one lexeme after another. Everything that
is said about scans is said by this equation. -/
theorem scan_step (position : Nat) (source : List Char) :
    scan [] position source =
      let spaces := source.takeWhile isSpace
      let start := position + width spaces
      match source.dropWhile isSpace with
      | [] => .ok [⟨.endOfInput, .point start⟩]
      | c :: cs =>
        match Lexeme.ofChars (beginsLine position spaces) c cs with
        | .error e => .error (e.shift start)
        | .ok x =>
          (scan [] (start + width x.text) x.rest).map
            (⟨x.kind, ⟨start, start + width x.text⟩⟩ :: ·) := by
  rw [scan, scanWith.eq_def]
  dsimp only
  split
  · next h => rw [h]; rfl
  · next c cs h =>
    rw [h]
    dsimp only
    split
    · next e he => rw [he]
    · next x hx =>
      rw [hx, ← scan, isKept_true, if_pos rfl, scan_eq_map]
      rfl

/-- Spaces alone come to the end. -/
theorem scan_of_all_isSpace (position : Nat) {cs : List Char} (h : cs.all isSpace = true) :
    scan [] position cs = .ok [⟨.endOfInput, .point (position + width cs)⟩] := by
  have hspaces : cs.takeWhile isSpace = cs := by
    rw [← List.append_nil cs, List.takeWhile_append_of_pos (List.all_eq_true.1 h)]
    rfl
  have hnone : cs.dropWhile isSpace = [] := by
    rw [← List.append_nil cs, List.dropWhile_append_of_pos (List.all_eq_true.1 h)]
    rfl
  rw [scan_step, hspaces, hnone]

theorem scan_nil (position : Nat) : scan [] position [] = .ok [⟨.endOfInput, .point position⟩] :=
  scan_of_all_isSpace position rfl

/-- One step of a scan, from the spaces that come first. -/
theorem scan_gap (position : Nat) {gap cs : List Char} {c : Char} (hgap : gap.all isSpace = true)
    (hc : isSpace c = false) :
    scan [] position (gap ++ c :: cs) =
      match Lexeme.ofChars (beginsLine position gap) c cs with
      | .error e => .error (e.shift (position + width gap))
      | .ok x =>
        (scan [] (position + width gap + width x.text) x.rest).map
          (⟨x.kind, ⟨position + width gap, position + width gap + width x.text⟩⟩ :: ·) := by
  have hspaces : (gap ++ c :: cs).takeWhile isSpace = gap := by
    rw [List.takeWhile_append_of_pos (List.all_eq_true.1 hgap)]
    simp [hc]
  have hbody : (gap ++ c :: cs).dropWhile isSpace = c :: cs := by
    rw [List.dropWhile_append_of_pos (List.all_eq_true.1 hgap)]
    simp [hc]
  rw [scan_step, hspaces, hbody]

/-- Spaces, a lexeme, and the tokens after it. With it a scan is put together
from the front, as `scan_cases` takes it apart. -/
theorem scan_next {position start stop : Nat} (gap : List Char) {c : Char}
    {cs text rest : List Char} {kind : Kind} {tokens : List Token} (hgap : gap.all isSpace = true)
    (hc : isSpace c = false)
    (hlexeme : Lexeme.ofChars (beginsLine position gap) c cs = .ok ⟨kind, text, rest⟩)
    (hstart : position + width gap = start) (hstop : start + width text = stop)
    (hrest : scan [] stop rest = .ok tokens) :
    scan [] position (gap ++ c :: cs) = .ok (⟨kind, ⟨start, stop⟩⟩ :: tokens) := by
  rw [scan_gap position hgap hc]
  simp only [hlexeme, hstart, hstop, hrest]
  rfl

/-- What is scanned is spaces up to the end, or starts with a lexeme behind
some spaces. An induction over a scan goes by these two cases. -/
theorem scan_cases {position : Nat} {cs : List Char} {tokens : List Token}
    (h : scan [] position cs = .ok tokens) :
    (cs.all isSpace = true ∧ tokens = [⟨.endOfInput, .point (position + width cs)⟩])
      ∨ ∃ gap c rest x ts, cs = gap ++ c :: rest ∧ gap.all isSpace = true ∧ isSpace c = false
        ∧ Lexeme.ofChars (beginsLine position gap) c rest = .ok x
        ∧ scan [] (position + width gap + width x.text) x.rest = .ok ts
        ∧ tokens = ⟨x.kind, ⟨position + width gap, position + width gap + width x.text⟩⟩ :: ts := by
  have hcs := List.takeWhile_append_dropWhile (p := isSpace) (l := cs)
  have hgap : (cs.takeWhile isSpace).all isSpace = true := List.all_takeWhile
  cases hbody : cs.dropWhile isSpace with
  -- nothing but spaces: the end of the input stands behind them
  | nil =>
    rw [hbody, List.append_nil] at hcs
    rw [scan_step, hbody, hcs] at h
    rw [hcs] at hgap
    exact .inl ⟨hgap, (Except.ok.inj h).symm⟩
  | cons c rest =>
    have hc : isSpace c = false := by
      have hfirst := List.head?_dropWhile_not isSpace cs
      rw [hbody] at hfirst
      simpa using hfirst
    rw [hbody] at hcs
    rw [← hcs, scan_gap position hgap hc] at h
    split at h
    · cases h
    · next x hx =>
      cases hscan : scan [] (position + width (cs.takeWhile isSpace) + width x.text) x.rest with
      | error e =>
        rw [hscan] at h
        cases h
      | ok ts =>
        rw [hscan] at h
        exact .inr ⟨_, c, rest, x, ts, hcs.symm, hgap, hc, hx, hscan, (Except.ok.inj h).symm⟩

/-- The first token of a scan comes from a lexeme behind some spaces, and the
others from what is left. -/
theorem exists_lexeme_of_scan {position : Nat} {cs : List Char} {t : Token} {ts : List Token}
    (h : scan [] position cs = .ok (t :: ts)) (ht : t.kind.isEnd = false) :
    ∃ gap c rest x, cs = gap ++ c :: rest ∧ gap.all isSpace = true ∧ isSpace c = false
      ∧ Lexeme.ofChars (beginsLine position gap) c rest = .ok x
      ∧ t = ⟨x.kind, ⟨position + width gap, position + width gap + width x.text⟩⟩
      ∧ scan [] (position + width gap + width x.text) x.rest = .ok ts := by
  obtain ⟨-, hend⟩ | ⟨gap, c, rest, x, us, hcs, hgap, hc, hx, hscan, htokens⟩ := scan_cases h
  · obtain ⟨rfl, -⟩ := List.cons.inj hend
    cases ht
  · obtain ⟨rfl, rfl⟩ := List.cons.inj htokens
    exact ⟨gap, c, rest, x, hcs, hgap, hc, hx, rfl, hscan⟩

/-- A scan goes through the text lexeme by lexeme. The length of the text is
what the induction is on, since a lexeme leaves less of it. -/
@[elab_as_elim]
theorem scan_induct {P : Nat → List Char → List Token → Prop}
    (finish : ∀ position gap, gap.all isSpace = true →
      P position gap [⟨.endOfInput, .point (position + width gap)⟩])
    (lexeme : ∀ position gap c rest x ts, gap.all isSpace = true → isSpace c = false →
      Lexeme.ofChars (beginsLine position gap) c rest = .ok x →
      P (position + width gap + width x.text) x.rest ts →
      P position (gap ++ c :: rest)
        (⟨x.kind, ⟨position + width gap, position + width gap + width x.text⟩⟩ :: ts))
    {position : Nat} {cs : List Char} {tokens : List Token}
    (h : scan [] position cs = .ok tokens) : P position cs tokens := by
  obtain ⟨hgap, rfl⟩ | ⟨gap, c, rest, x, ts, hcs, hgap, hc, hx, hscan, rfl⟩ := scan_cases h
  · exact finish position cs hgap
  · have hlt : x.rest.length < cs.length := by
      have hless := Lexeme.rest_length_lt hx
      rw [hcs, List.length_append]
      omega
    have hrest := scan_induct finish lexeme hscan
    rw [hcs]
    exact lexeme position gap c rest x ts hgap hc hx hrest
termination_by cs.length

/-- A source that is one lexeme and nothing else. -/
theorem scan_lexeme {c : Char} {cs text : List Char} {kind : Kind} {stop : Nat}
    (hc : isSpace c = false) (hlexeme : Lexeme.ofChars true c cs = .ok ⟨kind, text, []⟩)
    (hstop : width text = stop) :
    scan [] 0 (c :: cs) = .ok [⟨kind, ⟨0, stop⟩⟩, ⟨.endOfInput, ⟨stop, stop⟩⟩] := by
  refine @scan_next 0 0 stop [] _ _ _ _ _ _ rfl hc hlexeme rfl ?_ (scan_nil _)
  rw [Nat.zero_add, hstop]

theorem rest_length_lt_of_body {atLineStart : Bool} {source cs : List Char} {c : Char} {x : Lexeme}
    (hbody : source.dropWhile isSpace = c :: cs) (hx : Lexeme.ofChars atLineStart c cs = .ok x) :
    x.rest.length < source.length := by
  have hrest := Lexeme.rest_length_lt hx
  have hdrop := (List.dropWhile_sublist (l := source) isSpace).length_le
  rw [hbody] at hdrop
  omega

theorem width_lexeme {atLineStart : Bool} {cs : List Char} {c : Char} {x : Lexeme}
    (hx : Lexeme.ofChars atLineStart c cs = .ok x) :
    width x.text + width x.rest = width (c :: cs) ∧ 0 < width x.text := by
  rw [← width_append, Lexeme.text_append_rest hx]
  exact ⟨rfl, width_pos (Lexeme.text_ne_nil hx)⟩

end UiScript.Token
