/-
Every text can be written. Between quotes of either kind, a backslash in front
of each backslash and of each such quote is enough: the literal ends at its
last character, and stands for the text, whatever characters the text has.

Two readers go over the literal, one for its end and one for its value, and
each passes a backslash together with what it protects. In a text that is
written this way they pass the same pairs, so neither of them comes to stand
inside of one. Between double quotes, where a backslash has other meanings
too, what is written is a body of pieces (`pieceOf`), and none of these is one
of the others.

# Main statements

* `splitBody_protect`: the literal ends where it should.
* `decodeBetween_protect`: it stands for the text.
* `ofSource_written`: the only token of the literal.
-/
import UiScript.Proofs.Scanning.CodePoints

namespace UiScript.Token

open Text
open Lexeme (isSpace)

namespace StringLiteral

-- ====================================================================== writing

/-- A text with a backslash in front of each backslash and each quote of a
kind. -/
def protect (quote : Char) (cs : List Char) : List Char :=
  cs.flatMap fun c => if c = '\\' ∨ c = quote then ['\\', c] else [c]

/-- A text as a literal between quotes of a kind. -/
def written (quote : Char) (cs : List Char) : List Char := quote :: (protect quote cs ++ [quote])

/-- A backslash or a quote of the kind gets a backslash in front. -/
theorem protect_cons_of_pos {quote c : Char} (h : c = '\\' ∨ c = quote) (cs : List Char) :
    protect quote (c :: cs) = '\\' :: c :: protect quote cs := by
  simp only [protect, List.flatMap_cons, if_pos h, List.cons_append, List.nil_append]

/-- Every other character is written as it is. -/
theorem protect_cons_of_neg {quote c : Char} (h : ¬ (c = '\\' ∨ c = quote)) (cs : List Char) :
    protect quote (c :: cs) = c :: protect quote cs := by
  simp only [protect, List.flatMap_cons, if_neg h, List.cons_append, List.nil_append]

-- ============================================================= reading the body

variable {quote : Char}

/-- A literal ends at the first quote that is not protected. -/
theorem splitBodyFrom_protect (hquote : quote ≠ '\\') (body cs rest : List Char) :
    splitBodyFrom quote body (protect quote cs ++ quote :: rest)
      = some (body.reverse ++ protect quote cs, rest) := by
  induction cs generalizing body with
  | nil =>
    rw [protect, List.flatMap_nil, List.nil_append, List.append_nil]
    cases rest with
    | nil => rw [splitBodyFrom, if_pos rfl]
    | cons d rest => rw [splitBodyFrom, if_neg hquote, if_pos rfl]
  | cons c cs ih =>
    by_cases hc : c = '\\' ∨ c = quote
    · rw [protect_cons_of_pos hc, List.cons_append, List.cons_append, splitBodyFrom, if_pos rfl, ih]
      simp
    · obtain ⟨hslash, hother⟩ := not_or.1 hc
      obtain ⟨d, ds, hds⟩ := List.exists_cons_of_ne_nil
        (List.append_ne_nil_of_right_ne_nil (protect quote cs) (List.cons_ne_nil quote rest))
      rw [protect_cons_of_neg hc, List.cons_append, hds, splitBodyFrom, if_neg hslash,
        if_neg hother, ← hds, ih]
      simp

/-- The protected text ends where it should: the first quote that no backslash
protects is the closing one. The induction passes each pair together. -/
theorem splitBody_protect (hquote : quote ≠ '\\') (cs rest : List Char) :
    splitBody quote (protect quote cs ++ quote :: rest) = some (protect quote cs, rest) :=
  splitBodyFrom_protect hquote [] cs rest

/-- Between single quotes nothing else is protected. -/
theorem decodeSingleFrom_protect (done cs : List Char) :
    decodeSingleFrom done (protect '\x27' cs) = done.reverse ++ cs := by
  induction cs generalizing done with
  | nil => rw [protect, List.flatMap_nil, decodeSingleFrom, List.append_nil]
  | cons c cs ih =>
    by_cases hc : c = '\\' ∨ c = '\x27'
    · rw [protect_cons_of_pos hc, decodeSingleFrom, if_pos ⟨rfl, hc⟩, ih]
      simp
    · have hstep : decodeSingleFrom done (c :: protect '\x27' cs)
          = decodeSingleFrom (c :: done) (protect '\x27' cs) := by
        cases protect '\x27' cs with
        | nil => rw [decodeSingleFrom, decodeSingleFrom]
        | cons d ds => rw [decodeSingleFrom, if_neg fun hpair => hc (.inl hpair.1)]
      rw [protect_cons_of_neg hc, hstep, ih]
      simp

/-- The piece that a character is written as between double quotes. -/
def pieceOf (c : Char) : Piece := if c = '\\' ∨ c = '\x22' then .escaped c else .plain c

/-- The piece of a character is of the kind that it looks like. -/
theorem pieceOf_valid (c : Char) : (pieceOf c).Valid := by
  unfold pieceOf
  split
  · next hc =>
    obtain rfl | rfl := hc
    · exact ⟨by decide, by decide⟩
    · exact ⟨by decide, by decide⟩
  · next hc => exact fun hslash => hc (.inl hslash)

/-- The piece of a character is written as the character is protected. -/
theorem text_pieceOf (c : Char) :
    (pieceOf c).text = if c = '\\' ∨ c = '\x22' then ['\\', c] else [c] := by
  unfold pieceOf
  split <;> rfl

/-- The piece of a character stands for the character. -/
theorem value_pieceOf (c : Char) : (pieceOf c).value = [c] := by
  unfold pieceOf
  split
  · next hc => obtain rfl | rfl := hc <;> rfl
  · rfl

/-- A literal stands for the text. Each protected character is passed together
with its backslash, and gives the character. -/
theorem decodeBetween_protect (hquote : IsQuote quote) (cs : List Char) :
    decodeBetween quote (protect quote cs) = .ok cs := by
  obtain rfl | rfl := hquote
  · have htext : protect '\x22' cs = textOf (cs.map pieceOf) := by
      rw [protect, textOf, List.flatMap_map]
      simp only [text_pieceOf]
    have hvalue : valueOf (cs.map pieceOf) = cs := by
      rw [valueOf, List.flatMap_map]
      simp only [value_pieceOf]
      exact List.flatMap_singleton' cs
    have hvalid : ∀ p ∈ cs.map pieceOf, p.Valid := List.forall_mem_map.2 fun c _ => pieceOf_valid c
    rw [decodeBetween, if_pos rfl, htext, decodeDouble_pieces hvalid, hvalue]
  · rw [decodeBetween, if_neg (by decide), decodeSingle, decodeSingleFrom_protect]
    rfl

end StringLiteral

-- =============================================================== whole sources

open StringLiteral (protect written)

/-- The literal that a text is written as is one token, which stands for the
text, and nothing else. Its span is the whole of it, held at the limit of
offsets if the source is too long for that. -/
theorem ofSource_written {quote : Char} (hquote : IsQuote quote) (s : String) :
    let source := String.ofList (written quote s.toList)
    let stop := width source.toList
    let tokens : List Token := [⟨.string s, ⟨0, stop⟩⟩, ⟨.endOfInput, .point stop⟩]
    ofSource source = .ok (tokens.map saturate)
      ∧ (stop ≤ Span.maxOffset → ofSource source = .ok tokens) := by
  intro source stop tokens
  obtain ⟨hascii, hslash, hspace⟩ := hquote.ascii
  have hsource : source.toList = written quote s.toList := String.toList_ofList
  have hlexeme := ofChars_quote hquote true (protect quote s.toList ++ [quote])
  rw [StringLiteral.splitBody_protect hslash] at hlexeme
  simp only [StringLiteral.decodeBetween_protect hquote, String.ofList_toList] at hlexeme
  have hscan : scan [] 0 source.toList = .ok tokens := by
    rw [hsource]
    refine scan_lexeme hspace hlexeme ?_
    rw [← written, ← hsource]
  have hkept : tokens.filter (isKept false) = tokens := rfl
  have hall : ofSource source = .ok (tokens.map saturate) := by
    unfold ofSource ofSourceKeeping
    rw [scanWith_eq_map, hscan]
    show Except.ok ((tokens.filter (isKept false)).map saturate) = _
    rw [hkept]
  refine ⟨hall, fun hstop => ?_⟩
  rw [ofSource_eq_scan hstop, hscan]
  rfl

/-- A backslash and a letter that would be a line break together, a quote and
a NUL, between double quotes. -/
theorem ofSource_written_backslash :
    IsQuote '\x22' ∧ ofSource "\"\\\\n\\\"\x00\""
      = .ok [⟨.string "\\n\"\x00", ⟨0, 8⟩⟩, ⟨.endOfInput, ⟨8, 8⟩⟩] := by
  have hquote : IsQuote '\x22' := .inl rfl
  exact ⟨hquote, (ofSource_written hquote "\\n\"\x00").2 (by decide)⟩

end UiScript.Token
