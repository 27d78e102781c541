/-
How far a scan has come. A scan that has made some tokens stands between two
lexemes: at a byte of the source, with what is left of it. Nothing else is
known to it of what it has passed, so all that is still to come can be said
of such a place alone, also where the source has no tokens in the end.

# Main statements

* `Reaches.scan_eq`: a scan goes on from each place that it reaches.
* `Reaches.exists_passed`: what has been passed and what is left make up the
  source.
* `Reaches.mem_of_ofSource`, `Reaches.ofSource_error_of_width_le`: what is made,
  or wrong, at such a place is the source's.
* `isMadeIn_of_mem`: every token is made at a place that the scan reaches.
-/
import UiScript.Proofs.Scanning.Bounds

namespace UiScript.Token

open Text
open Lexeme (isSpace)

/-- Having made `tokens`, the scan of `source` stands at a byte, and `rest` is
left. -/
inductive Reaches (source : List Char) : List Token → Nat → List Char → Prop where
  | start : Reaches source [] 0 source
  | lexeme {tokens : List Token} {position : Nat} {gap : List Char} {c : Char} {cs : List Char}
      {x : Lexeme} (before : Reaches source tokens position (gap ++ c :: cs))
      (hgap : gap.all isSpace = true) (hc : isSpace c = false)
      (hx : Lexeme.ofChars (beginsLine position gap) c cs = .ok x) :
      Reaches source
        (tokens ++ [⟨x.kind, ⟨position + width gap, position + width gap + width x.text⟩⟩])
        (position + width gap + width x.text) x.rest

namespace Reaches

variable {source rest : List Char} {tokens : List Token} {position : Nat}

/-- A scan goes on from each place that it reaches. -/
theorem scan_eq (h : Reaches source tokens position rest) :
    scan [] 0 source = (scan [] position rest).map (tokens ++ ·) := by
  induction h with
  | start => cases scan [] 0 source <;> rfl
  | lexeme before hgap hc hx ih =>
    rw [ih, scan_gap _ hgap hc, hx]
    dsimp only
    generalize scan [] _ _ = left
    cases left with
    | error e => rfl
    | ok ts => simp [Except.map]

/-- What has been passed and what is left make up the source. -/
theorem exists_passed (h : Reaches source tokens position rest) :
    ∃ passed, source = passed ++ rest ∧ width passed = position := by
  induction h with
  | start => exact ⟨[], rfl, rfl⟩
  | lexeme before hgap hc hx ih =>
    obtain ⟨passed, hsource, hwidth⟩ := ih
    rw [← Lexeme.text_append_rest hx] at hsource
    refine ⟨passed ++ (_ ++ _), by rw [hsource, List.append_assoc, List.append_assoc], ?_⟩
    rw [width_append, width_append, hwidth, Nat.add_assoc]

end Reaches

-- ============================================================== whole sources

section
variable {source : String} {tokens : List Token} {position : Nat} {rest : List Char}

/-- A source is refused for what is wrong at a place that the scan reaches. -/
theorem Reaches.ofSource_error {gap cs : List Char} {c : Char} {e : LexicalError}
    (h : Reaches source.toList tokens position (gap ++ c :: cs)) (hgap : gap.all isSpace = true)
    (hc : isSpace c = false) (he : Lexeme.ofChars (beginsLine position gap) c cs = .error e)
    (comments : Bool) :
    ofSourceKeeping comments source = .error (e.shift (position + width gap)).saturate := by
  unfold ofSourceKeeping
  rw [scanWith_eq_map, h.scan_eq, scan_gap position hgap hc, he]
  rfl

/-- The tokens that have been made are the first ones of the source, if it has
any. -/
theorem Reaches.exists_append_of_ofSource (h : Reaches source.toList tokens position rest)
    {comments : Bool} {ts : List Token} (hts : ofSourceKeeping comments source = .ok ts) :
    ∃ more, ts = (tokens.filter (isKept comments)).map saturate ++ more := by
  unfold ofSourceKeeping at hts
  rw [scanWith_eq_map, h.scan_eq] at hts
  cases hscan : scan [] position rest with
  | error e =>
    rw [hscan] at hts
    cases hts
  | ok left =>
    rw [hscan] at hts
    cases hts
    refine ⟨(left.filter (isKept comments)).map saturate, ?_⟩
    rw [← List.map_append, ← List.filter_append]
    rfl

/-- A token that has been made and is kept is one of the source's. -/
theorem Reaches.saturate_mem (h : Reaches source.toList tokens position rest) {comments : Bool}
    {ts : List Token} (hts : ofSourceKeeping comments source = .ok ts) {t : Token}
    (ht : t ∈ tokens) (hkept : t.isKept comments = true) : t.saturate ∈ ts := by
  obtain ⟨more, rfl⟩ := h.exists_append_of_ofSource hts
  exact List.mem_append_left more (List.mem_map_of_mem (List.mem_filter.2 ⟨ht, hkept⟩))

/-- Within the limit of offsets, a source is refused for what is wrong at a
place, where it is. -/
theorem Reaches.ofSource_error_of_width_le {gap cs : List Char} {c : Char} {e : LexicalError}
    (h : Reaches source.toList tokens position (gap ++ c :: cs))
    (hwidth : width source.toList ≤ Span.maxOffset) (hgap : gap.all isSpace = true)
    (hc : isSpace c = false) (he : Lexeme.ofChars (beginsLine position gap) c cs = .error e)
    (comments : Bool) :
    ofSourceKeeping comments source = .error (e.shift (position + width gap)) := by
  rw [ofSourceKeeping_eq_scan comments hwidth, h.scan_eq, scan_gap position hgap hc, he]
  rfl

/-- Within the limit of offsets, a token that has been made and is kept is one
of the source's. -/
theorem Reaches.mem_of_ofSource (h : Reaches source.toList tokens position rest)
    (hwidth : width source.toList ≤ Span.maxOffset) {comments : Bool} {ts : List Token}
    (hts : ofSourceKeeping comments source = .ok ts) {t : Token} (ht : t ∈ tokens)
    (hkept : t.isKept comments = true) : t ∈ ts := by
  obtain ⟨all, hscan, rfl⟩ := scan_of_ofSourceKeeping hwidth hts
  rw [h.scan_eq] at hscan
  cases hleft : scan [] position rest with
  | error e =>
    rw [hleft] at hscan
    cases hscan
  | ok left =>
    rw [hleft] at hscan
    cases hscan
    exact List.mem_filter.2 ⟨List.mem_append_left left ht, hkept⟩

end

-- =================================================================== tokens

/-- A token that a scan of the source makes at a place that it reaches. -/
def IsMadeIn (source : List Char) (t : Token) : Prop :=
  ∃ before position gap c rest x, Reaches source before position (gap ++ c :: rest)
    ∧ gap.all isSpace = true ∧ isSpace c = false
    ∧ Lexeme.ofChars (beginsLine position gap) c rest = .ok x
    ∧ t = ⟨x.kind, ⟨position + width gap, position + width gap + width x.text⟩⟩

/-- Every token but the end of the input is made at a place that the scan
reaches. So what is proved of lexemes at the places of a scan is proved of the
tokens of a source. -/
theorem isMadeIn_of_mem {source : List Char} {tokens : List Token}
    (h : scan [] 0 source = .ok tokens) {t : Token} (ht : t ∈ tokens)
    (hend : t.kind.isEnd = false) : IsMadeIn source t := by
  -- the induction is along the scan, from any place that it has reached
  suffices hall : ∀ {position : Nat} {cs : List Char} {ts : List Token},
      scan [] position cs = .ok ts → ∀ before, Reaches source before position cs → t ∈ ts →
        IsMadeIn source t from
    hall h [] .start ht
  intro position cs ts hts
  refine scan_induct ?_ ?_ hts
  · intro position gap _ before _ hmem
    rw [List.mem_singleton.1 hmem] at hend
    cases hend
  · intro position gap c rest x ts hgap hc hx ih before hreaches hmem
    rcases List.mem_cons.1 hmem with rfl | hmem
    · exact ⟨before, position, gap, c, rest, x, hreaches, hgap, hc, hx, rfl⟩
    · exact ih _ (hreaches.lexeme hgap hc hx) hmem

end UiScript.Token
