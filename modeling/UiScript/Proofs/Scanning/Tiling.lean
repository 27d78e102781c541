/-
Tokens tile the source. Read from left to right, a text that can be scanned
is spaces and the texts of its tokens in turn, and after the last text there
are only spaces; nothing else is passed over, nothing is read twice, and no
token starts or stops inside a character.

# The induction

`Tiles` says this of a part of the source that starts at some offset, one
token at a time, as a scan reads it (`scan_tiles`). All else follows from
`Tiles` alone, whatever the forms of the lexemes are.

# Main statements

* `scan_tiles`: what is scanned is tiled.
* `tiled_of_ofSource`: the tokens of a source within the limit of offsets.
* `exists_end_of_ofSource`, `ordered_of_ofSource`: what is left of this
  without the comments.
-/
import UiScript.Proofs.Scanning.Bounds

namespace UiScript

namespace Text

theorem slice?_width_append (before mid after : List Char) :
    slice? (width before) (width before + width mid) (before ++ (mid ++ after)) = some mid := by
  rw [slice?, drop?_width_append, Nat.add_sub_cancel_left]
  exact take?_width_append mid after

/-- A character of two texts in a row is one of the first or one of the
second. -/
theorem char_of_append {left right before after : List Char} {c : Char}
    (h : left ++ right = before ++ c :: after) :
    (∃ more, left = before ++ c :: more)
      ∨ ∃ before', before = left ++ before' ∧ right = before' ++ c :: after := by
  rcases List.append_eq_append_iff.1 h with ⟨tail, hbefore, hright⟩ | ⟨tail, hleft, htail⟩
  · exact .inr ⟨tail, hbefore, hright⟩
  · cases tail with
    | nil => exact .inr ⟨[], by simpa using hleft.symm, htail.symm⟩
    | cons d more =>
      cases htail
      exact .inl ⟨more, hleft⟩

end Text

namespace Token

open Text
open Lexeme (isSpace)

-- ===================================================================== tilings

/-- From an offset on, characters are spaces and the texts of tokens in turn. -/
inductive Tiles : Nat → List Char → List Token → Prop where
  | finish {position : Nat} {gap : List Char} (hgap : ∀ c ∈ gap, isSpace c = true) :
      Tiles position gap [⟨.endOfInput, .point (position + width gap)⟩]
  | token {position : Nat} {gap text rest : List Char} {kind : Kind} {ts : List Token}
      (hgap : ∀ c ∈ gap, isSpace c = true) (htext : text ≠ []) (hkind : kind.isEnd = false)
      (hrest : Tiles (position + width gap + width text) rest ts) :
      Tiles position (gap ++ (text ++ rest))
        (⟨kind, ⟨position + width gap, position + width gap + width text⟩⟩ :: ts)

/-- What is scanned is tiled. The end of the input closes the row, behind the
spaces that are left. -/
theorem scan_tiles {position : Nat} {cs : List Char} {tokens : List Token}
    (h : scan [] position cs = .ok tokens) : Tiles position cs tokens := by
  refine scan_induct (fun position gap hgap => .finish (List.all_eq_true.1 hgap)) ?_ h
  intro position gap c rest x ts hgap hc hx hrest
  rw [← Lexeme.text_append_rest hx]
  exact .token (List.all_eq_true.1 hgap) (Lexeme.text_ne_nil hx)
    (Lexeme.isEnd_eq_false_of_ofChars hx) hrest

-- ======================================================== what a tiling gives

/-- The ranges before, and between, tokens. -/
def gapsFrom (position : Nat) : List Token → List Span
  | [] => []
  | t :: ts => ⟨position, t.span.start⟩ :: gapsFrom t.span.stop ts

namespace Tiles

variable {position : Nat} {cs : List Char} {tokens : List Token}

/-- The end of the input is the last token, and is only there. -/
theorem closed (h : Tiles position cs tokens) :
    ∃ body, tokens = body ++ [⟨.endOfInput, .point (position + width cs)⟩]
      ∧ ∀ t ∈ body, t.kind.isEnd = false := by
  induction h with
  | finish => exact ⟨[], rfl, by simp⟩
  | @token position gap text rest kind ts hgap htext hkind hrest ih =>
    obtain ⟨body, rfl, hbody⟩ := ih
    have hstop : position + width gap + width text + width rest
        = position + width (gap ++ (text ++ rest)) := by
      simp only [width_append]
      omega
    rw [hstop]
    refine ⟨_ :: body, rfl, fun t ht => ?_⟩
    rcases List.mem_cons.1 ht with rfl | ht
    · exact hkind
    · exact hbody t ht

/-- A token is a piece of the text, and only the end of the input is an empty
one. -/
theorem piece (h : Tiles position cs tokens) {t : Token} (ht : t ∈ tokens) :
    ∃ before text after, cs = before ++ (text ++ after) ∧ (t.kind.isEnd = false → text ≠ [])
      ∧ t.span = ⟨position + width before, position + width before + width text⟩ := by
  induction h with
  | @finish position gap hgap =>
    rw [List.mem_singleton.1 ht]
    exact ⟨gap, [], [], by simp, by simp [Kind.isEnd], rfl⟩
  | @token position gap text rest kind ts hgap htext hkind hrest ih =>
    rcases List.mem_cons.1 ht with rfl | ht
    · exact ⟨gap, text, rest, rfl, fun _ => htext, rfl⟩
    · obtain ⟨before, mid, after, rfl, hmid, hspan⟩ := ih ht
      refine ⟨gap ++ (text ++ before), mid, after, by simp, hmid, ?_⟩
      rw [hspan, width_append, width_append, ← Nat.add_assoc, ← Nat.add_assoc]

theorem start_le (h : Tiles position cs tokens) {t : Token} (ht : t ∈ tokens) :
    position ≤ t.span.start := by
  obtain ⟨before, text, after, -, -, hspan⟩ := h.piece ht
  rw [hspan]
  exact Nat.le_add_right ..

/-- Every token starts after those before it have stopped. -/
theorem ordered (h : Tiles position cs tokens) :
    tokens.Pairwise fun t u => t.span.stop ≤ u.span.start := by
  induction h with
  | finish => exact List.pairwise_singleton ..
  | token hgap htext hkind hrest ih =>
    exact List.pairwise_cons.2 ⟨fun u hu => hrest.start_le hu, ih⟩

/-- Only spaces stand before and between tokens. -/
theorem spaced (h : Tiles position cs tokens) (passed : List Char)
    (hpassed : width passed = position) :
    ∀ g ∈ gapsFrom position tokens, ∃ gap, slice? g.start g.stop (passed ++ cs) = some gap
      ∧ ∀ c ∈ gap, isSpace c = true := by
  induction h generalizing passed with
  | @finish position gap hgap =>
    intro g hg
    rw [List.mem_singleton.1 hg, ← hpassed]
    refine ⟨gap, ?_, hgap⟩
    have := slice?_width_append passed gap []
    rwa [List.append_nil] at this
  | @token position gap text rest kind ts hgap htext hkind hrest ih =>
    intro g hg
    rcases List.mem_cons.1 hg with rfl | hg
    · subst hpassed
      exact ⟨gap, slice?_width_append passed gap (text ++ rest), hgap⟩
    · have hwidth : width (passed ++ gap ++ text) = position + width gap + width text := by
        rw [width_append, width_append, hpassed]
      have hrun := ih _ hwidth g hg
      rwa [List.append_assoc, List.append_assoc] at hrun

/-- Every byte of a character that is no space belongs to exactly one token. -/
theorem covered (h : Tiles position cs tokens) {before after : List Char} {c : Char}
    (hcs : cs = before ++ c :: after) (hc : isSpace c = false) {k : Nat} (hk : k < c.utf8Size) :
    tokens.countP (·.span.contains (position + width before + k)) = 1 := by
  induction h generalizing before with
  | @finish position gap hgap =>
    have hspace := hgap c (by simp [hcs])
    rw [hc] at hspace
    cases hspace
  | @token position gap text rest kind ts hgap htext hkind hrest ih =>
    rcases char_of_append hcs with ⟨more, rfl⟩ | ⟨before, rfl, htexts⟩
    · have hspace := hgap c (by simp)
      rw [hc] at hspace
      cases hspace
    rcases char_of_append htexts with ⟨more, rfl⟩ | ⟨before, rfl, hrests⟩
    · -- the byte is one of the token's, and all others start after it
      have hothers : ts.countP (·.span.contains (position + width (gap ++ before) + k)) = 0 := by
        refine List.countP_eq_zero.2 fun u hu hcontains => ?_
        have hle := hrest.start_le hu
        simp only [Span.contains, Bool.and_eq_true, decide_eq_true_eq, width_append,
          width_cons] at hcontains hle
        omega
      rw [List.countP_cons_of_pos, hothers]
      simp only [Span.contains, Bool.and_eq_true, decide_eq_true_eq, width_append, width_cons]
      omega
    · -- the byte lies past the token
      have hrun := ih hrests
      rw [List.countP_cons_of_neg]
      · rw [← hrun, width_append, width_append, ← Nat.add_assoc, ← Nat.add_assoc]
      · simp only [Span.contains, Bool.and_eq_true, decide_eq_true_eq, width_append]
        omega

end Tiles

-- =============================================================== whole sources

/-- The six characters that may stand around tokens: blank, tab, line feed,
carriage return, vertical tab and form feed. -/
def spaces : List Char := [' ', '\t', '\n', '\r', '\x0b', '\x0c']

theorem isSpace_iff {c : Char} : isSpace c = true ↔ c ∈ spaces := by
  simp only [isSpace, spaces, Bool.or_eq_true, beq_iff_eq, List.mem_cons, List.not_mem_nil,
    or_false, or_assoc]

/-- How tokens lie in a text. -/
structure Tiled (cs : List Char) (tokens : List Token) : Prop where
  /-- One token is the end of the input; it is the last one, and stands at the end. -/
  closed : ∃ body, tokens = body ++ [⟨.endOfInput, ⟨width cs, width cs⟩⟩]
    ∧ ∀ t ∈ body, t.kind ≠ .endOfInput
  bounded : ∀ t ∈ tokens, t.kind ≠ .endOfInput → t.span.start < t.span.stop ∧ t.span.stop ≤ width cs
  aligned : ∀ t ∈ tokens, IsBoundary cs t.span.start ∧ IsBoundary cs t.span.stop
  ordered : tokens.Pairwise fun t u => t.span.stop ≤ u.span.start
  /-- What stands before, between and after the tokens is spaces. -/
  spaced : ∀ g ∈ gapsFrom 0 tokens, ∃ gap, slice? g.start g.stop cs = some gap
    ∧ ∀ c ∈ gap, c ∈ spaces
  /-- Every byte of a character that is no space belongs to exactly one token. -/
  covered : ∀ before c after, cs = before ++ c :: after → c ∉ spaces →
    ∀ k < c.utf8Size, tokens.countP (·.span.contains (width before + k)) = 1

theorem ne_endOfInput_iff {kind : Kind} : kind ≠ .endOfInput ↔ kind.isEnd = false := by
  cases kind <;> simp [Kind.isEnd]

theorem Tiles.tiled {cs : List Char} {tokens : List Token} (h : Tiles 0 cs tokens) :
    Tiled cs tokens where
  closed := by
    obtain ⟨body, heq, hbody⟩ := h.closed
    rw [Nat.zero_add] at heq
    exact ⟨body, heq, fun t ht => ne_endOfInput_iff.2 (hbody t ht)⟩
  bounded t ht hkind := by
    obtain ⟨before, text, after, rfl, htext, hspan⟩ := h.piece ht
    have := width_pos (htext (ne_endOfInput_iff.1 hkind))
    simp only [hspan, width_append]
    omega
  aligned t ht := by
    obtain ⟨before, text, after, rfl, -, hspan⟩ := h.piece ht
    rw [hspan, Nat.zero_add, ← width_append]
    exact ⟨⟨before, text ++ after, rfl, rfl⟩, ⟨before ++ text, after, by simp, rfl⟩⟩
  ordered := h.ordered
  spaced g hg := by
    obtain ⟨gap, hslice, hgap⟩ := h.spaced [] rfl g hg
    exact ⟨gap, hslice, fun c hc => isSpace_iff.1 (hgap c hc)⟩
  covered before c after hcs hc k hk := by
    have := h.covered hcs (Bool.eq_false_iff.2 (mt isSpace_iff.1 hc)) hk
    rwa [Nat.zero_add] at this

/-- Without the comments, the tokens of a source are some of those that tile
it. -/
theorem tiles_of_ofSource {source : String} {tokens : List Token}
    (hwidth : width source.toList ≤ Span.maxOffset) (h : ofSource source = .ok tokens) :
    ∃ all, Tiles 0 source.toList all ∧ tokens = all.filter fun t => !t.isComment := by
  rw [ofSource_eq_scan hwidth] at h
  cases hscan : scan [] 0 source.toList with
  | error e =>
    rw [hscan] at h
    cases h
  | ok all =>
    rw [hscan] at h
    cases h
    exact ⟨all, scan_tiles hscan, rfl⟩

/-- A source ends where its tokens end. The end of the input comes once and
last, and stands at the width of the source. -/
theorem exists_end_of_ofSource {source : String} {tokens : List Token}
    (hwidth : width source.toList ≤ Span.maxOffset) (h : ofSource source = .ok tokens) :
    ∃ t ∈ tokens, t.kind.isEnd = true := by
  obtain ⟨all, htiles, rfl⟩ := tiles_of_ofSource hwidth h
  obtain ⟨body, rfl, -⟩ := htiles.closed
  exact ⟨_, List.mem_filter.2 ⟨List.mem_append_right body (List.mem_singleton_self _), rfl⟩, rfl⟩

/-- The tokens of a source stand in the order in which they are read. Leaving
out comments does not change the order of the others. -/
theorem ordered_of_ofSource {source : String} {tokens : List Token}
    (hwidth : width source.toList ≤ Span.maxOffset) (h : ofSource source = .ok tokens) :
    tokens.Pairwise fun t u => t.span.stop ≤ u.span.start := by
  obtain ⟨all, htiles, rfl⟩ := tiles_of_ofSource hwidth h
  exact htiles.ordered.sublist List.filter_sublist

/-- The tokens of a source tile it, comments included. -/
theorem tiled_of_ofSource {source : String} {tokens : List Token}
    (hwidth : width source.toList ≤ Span.maxOffset)
    (h : ofSourceWithComments source = .ok tokens) : Tiled source.toList tokens := by
  rw [ofSourceWithComments_eq_scan hwidth] at h
  exact (scan_tiles h).tiled

/-- A comment that holds a character of two bytes, a line break and a mark. -/
theorem tiled_of_ofSource_note :
    let tokens : List Token :=
      [⟨.comment "é", ⟨0, 3⟩⟩, ⟨.punctuation ';', ⟨4, 5⟩⟩, ⟨.endOfInput, ⟨5, 5⟩⟩]
    ofSourceWithComments "#é\n;" = .ok tokens ∧ Tiled "#é\n;".toList tokens := by
  intro tokens
  have hwidth : width "#é\n;".toList ≤ Span.maxOffset := by decide
  have hsource : ofSourceWithComments "#é\n;" = .ok tokens := by
    rw [ofSourceWithComments_eq_scan hwidth, scan_step]
    show (scan [] 3 ['\n', ';']).map _ = _
    rw [scan_step]
    show ((scan [] 5 []).map _).map _ = _
    rw [scan_step]
    rfl
  exact ⟨hsource, tiled_of_ofSource hwidth hsource⟩

end Token

end UiScript
