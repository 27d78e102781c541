/-
A token does not depend on what stands around it. Cut out of its source, the
text of a token is a source of its own, and has that token and no other.

What stands before a token matters only as far as it tells whether a line
begins, and that matters only to block comments, which are found where one
does: at the beginning of a text, a line begins. What stands behind a token
can only have kept it from being longer (`Cutoff`). An equals sign is the one
token that more text would have changed; on its own it is what it was.

A token that is made of a name takes all of that name: what comes next
continues no name.

# Main statements

* `ofChars_alone`: the text of a lexeme is that lexeme and nothing else.
* `not_continuesName_of_isWord`: names are taken to their end.
* `ofSource_token`: both for the tokens of a source.
-/
import UiScript.Proofs.Scanning.Cutoff
import UiScript.Proofs.Scanning.Reaching
import UiScript.Proofs.Scanning.Tiling

namespace UiScript.Token

open Text
open Lexeme (isSpace continuesName)

namespace Lexeme

variable {atLineStart : Bool} {c : Char} {cs : List Char} {x : Lexeme}

-- ===================================================================== marks

/-- A mark is one character. -/
theorem eq_of_kind_punctuation {mark : Char} (h : ofChars atLineStart c cs = .ok x)
    (hx : x.kind = .punctuation mark) : c = mark ∧ x.text = [mark] := by
  obtain ⟨form, hread, hmakes⟩ := exists_form h
  rw [hx] at hmakes
  cases form with
  | mark =>
    cases hread
    cases hx
    exact ⟨rfl, rfl⟩
  | word =>
    obtain ⟨text, hkind⟩ := hmakes
    have hword := isWord_kindOfWord text
    rw [← hkind] at hword
    cases hword
  | _ =>
    obtain ⟨_, hkind⟩ := hmakes
    cases hkind

-- ============================================================ where it stands

/-- What is no equals sign is read at the start of a line as it is elsewhere. -/
theorem ofChars_lineStart (h : ofChars atLineStart c cs = .ok x)
    (hx : x.kind ≠ .punctuation '=') : ofChars true c cs = .ok x := by
  cases atLineStart with
  | true => exact h
  | false =>
    by_cases hc : c = '='
    · subst hc
      rw [ofChars_equals, Bool.false_and, if_neg Bool.false_ne_true] at h
      cases h
      exact absurd rfl hx
    · rw [← h]
      unfold ofChars
      rw [decide_eq_false hc, Bool.false_and, Bool.false_and, Bool.false_and, Bool.false_and]

/-- The text of a lexeme, on its own, is that lexeme. Where its text ends, the
text ends, so there is nothing to be taken more. -/
theorem ofChars_alone (h : ofChars atLineStart c cs = .ok x) :
    ∃ text, x.text = c :: text ∧ ofChars true c text = .ok ⟨x.kind, x.text, []⟩ := by
  by_cases hx : x.kind = .punctuation '='
  · obtain ⟨rfl, htext⟩ := eq_of_kind_punctuation h hx
    refine ⟨[], htext, ?_⟩
    rw [hx, htext]
    rfl
  · have hwhole := text_append_rest h
    obtain ⟨d, text, htext⟩ := List.exists_cons_of_ne_nil (text_ne_nil h)
    rw [htext, List.cons_append] at hwhole
    obtain ⟨rfl, hcs⟩ := List.cons.inj hwhole
    have hlonger : ofChars atLineStart d (text ++ x.rest)
        = .ok (followedBy ⟨x.kind, x.text, []⟩ x.rest) := by
      rw [hcs, h]
      rfl
    exact ⟨text, htext, ofChars_lineStart (ofChars_cut hlonger hx) hx⟩

-- ===================================================================== names

/-- A token that is made of a name is followed by nothing that continues a
name. A word is the longest one there is, and so is a symbol. -/
theorem not_continuesName_of_isWord (h : ofChars atLineStart c cs = .ok x)
    (hx : x.kind.isWord = true) : ∀ d ∈ x.rest.head?, continuesName d = false := by
  have hstops (ds : List Char) :
      ∀ d ∈ (ds.dropWhile continuesName).head?, continuesName d = false := by
    intro d hd
    have hfirst := List.head?_dropWhile_not continuesName ds
    rw [Option.mem_def.1 hd] at hfirst
    simpa using hfirst
  obtain ⟨form, hread, hmakes⟩ := exists_form h
  cases form with
  | symbol | word =>
    cases hread
    exact hstops _
  | _ =>
    obtain ⟨_, hkind⟩ := hmakes
    rw [hkind] at hx
    cases hx

end Lexeme

-- ==================================================================== sources

/-- Each token of a source is, moved to the beginning, the only token of its
text; and a token that is made of a name is not followed by a letter, a digit
or an underscore. -/
theorem ofSource_token {source : String} {tokens : List Token}
    (hwidth : width source.toList ≤ Span.maxOffset)
    (h : ofSourceWithComments source = .ok tokens) : ∀ t ∈ tokens, t.kind ≠ .endOfInput →
      ∃ text after, slice? t.span.start t.span.stop source.toList = some text
        ∧ drop? t.span.stop source.toList = some after
        ∧ ofSourceWithComments (String.ofList text)
          = .ok [⟨t.kind, ⟨0, t.span.size⟩⟩, ⟨.endOfInput, ⟨t.span.size, t.span.size⟩⟩]
        ∧ (t.kind.isWord = true → ∀ c ∈ after.head?, continuesName c = false) := by
  intro t ht hend
  rw [ofSourceWithComments_eq_scan hwidth] at h
  obtain ⟨_, position, gap, c, rest, x, hreaches, -, hc, hx, rfl⟩ :=
    isMadeIn_of_mem h ht (ne_endOfInput_iff.1 hend)
  obtain ⟨text, htext, halone⟩ := Lexeme.ofChars_alone hx
  -- the source is what is before the token, its text, and what is left behind it
  obtain ⟨passed, hsource, rfl⟩ := hreaches.exists_passed
  rw [← Lexeme.text_append_rest hx, ← List.append_assoc] at hsource
  rw [← width_append]
  -- on its own the token ends where its text does
  have hsize : Span.size ⟨width (passed ++ gap), width (passed ++ gap) + width x.text⟩
      = width x.text := Nat.add_sub_cancel_left _ _
  refine ⟨x.text, x.rest, ?_, ?_, ?_, Lexeme.not_continuesName_of_isWord hx⟩
  · rw [hsource]
    exact slice?_width_append (passed ++ gap) x.text x.rest
  · rw [hsource, ← width_append, ← List.append_assoc]
    exact drop?_width_append (passed ++ gap ++ x.text) x.rest
  · have hshort : width (String.ofList x.text).toList ≤ Span.maxOffset := by
      rw [hsource, width_append, width_append x.text] at hwidth
      rw [String.toList_ofList]
      omega
    rw [hsize, ofSourceWithComments_eq_scan hshort, String.toList_ofList, htext]
    rw [htext] at halone
    exact scan_lexeme hc halone rfl

/-- An equals sign in front of a word: it is no marker of a comment where it
stands, and none on its own. -/
theorem ofSource_token_equals :
    let t : Token := ⟨.punctuation '=', ⟨2, 3⟩⟩
    let tokens := [⟨.identifier "x", ⟨0, 1⟩⟩, t, ⟨.identifier "begin", ⟨3, 8⟩⟩,
      ⟨.endOfInput, ⟨8, 8⟩⟩]
    ofSourceWithComments "x =begin" = .ok tokens ∧ t ∈ tokens ∧ t.kind ≠ .endOfInput
      ∧ slice? 2 3 "x =begin".toList = some ['=']
      ∧ ofSourceWithComments "=" = .ok [⟨.punctuation '=', ⟨0, 1⟩⟩, ⟨.endOfInput, ⟨1, 1⟩⟩] := by
  intro t tokens
  have hsource : ofSourceWithComments "x =begin" = .ok tokens := by
    rw [ofSourceWithComments_eq_scan (by decide)]
    refine scan_next [] rfl rfl rfl rfl rfl ?_
    refine scan_next [' '] rfl rfl rfl rfl rfl ?_
    exact scan_next [] rfl rfl rfl rfl rfl (scan_nil 8)
  have ht : t ∈ tokens := List.mem_cons_of_mem _ List.mem_cons_self
  have hend : t.kind ≠ .endOfInput := by decide
  have hslice : slice? 2 3 "x =begin".toList = some ['='] :=
    slice?_width_append ['x', ' '] ['='] "begin".toList
  obtain ⟨text, after, htext, -, halone, -⟩ := ofSource_token (by decide) hsource t ht hend
  obtain rfl := Option.some.inj (hslice.symm.trans htext)
  exact ⟨hsource, ht, hend, hslice, halone⟩

end UiScript.Token
