/-
Where string literals end. A quote closes a literal if the backslashes
directly before it, none of them outside the body, come in pairs; the first
quote of the same kind that does is the end.

The scanner has no such count. It passes a backslash together with what
comes next, so what it has passed at any time ends with paired backslashes,
and a quote that it stops at does close; a quote that it passes is behind a
backslash that has no other half, so it does not. Both are shown of
characters, and hold of bytes because quotes and backslashes are ASCII.

# Main statements

* `splitBodyFrom_paired`, `splitBodyFrom_complete`: a body ends before a
  quote that closes, and before the first that does.
* `closes_iff`: quotes among bytes are quotes among characters.
* `ofSource_quoted`: how far the literals of a source reach.
-/
import UiScript.Proofs.Scanning.Reaching
import UiScript.Proofs.Text.Octets

namespace UiScript.Token

open Text
open Lexeme (isSpace)

namespace StringLiteral

-- ================================================================ closing quotes

/-- The backslashes at the end of a text come in pairs. -/
def Paired (cs : List Char) : Prop := trailing '\\' cs % 2 = 0

/-- The byte at an offset of a body is a quote that closes it: backslashes
before it come in pairs. -/
def Closes (quote : Char) (body : List UInt8) (i : Nat) : Prop :=
  body[i]? = some quote.toUInt8 ∧ trailing ('\\').toUInt8 (body.take i) % 2 = 0

/-- The first such quote. -/
def ClosesFirst (quote : Char) (body : List UInt8) (i : Nat) : Prop :=
  Closes quote body i ∧ ∀ j < i, ¬ Closes quote body j

instance (quote : Char) (body : List UInt8) (i : Nat) : Decidable (Closes quote body i) :=
  inferInstanceAs (Decidable (_ ∧ _))

instance (quote : Char) (body : List UInt8) (i : Nat) : Decidable (ClosesFirst quote body i) :=
  inferInstanceAs (Decidable (_ ∧ _))

theorem paired_nil : Paired [] := rfl

theorem paired_append_pair {cs : List Char} (h : Paired cs) (d : Char) :
    Paired (cs ++ ['\\', d]) := by
  unfold Paired at h ⊢
  rw [← List.singleton_append, ← List.append_assoc]
  by_cases hd : d = '\\'
  · rw [hd, trailing_concat_self, trailing_concat_self]
    omega
  · rw [trailing_concat _ _ hd]

theorem not_paired_concat {cs : List Char} (h : Paired cs) : ¬ Paired (cs ++ ['\\']) := by
  unfold Paired at h ⊢
  rw [trailing_concat_self]
  omega

theorem paired_concat {c : Char} (hc : c ≠ '\\') (cs : List Char) : Paired (cs ++ [c]) := by
  unfold Paired
  rw [trailing_concat _ _ hc]

/-- A quote among bytes that closes is one among characters that does. What
stands between the two is counted in bytes on the one side and in characters
on the other. -/
theorem closes_iff {quote : Char} (hquote : quote.utf8Size = 1) {cs : List Char} {i : Nat} :
    Closes quote (bytes cs) i ↔
      ∃ before after, cs = before ++ quote :: after ∧ width before = i ∧ Paired before := by
  unfold Closes
  rw [getElem?_bytes hquote]
  constructor
  · rintro ⟨⟨before, after, rfl, rfl⟩, hpaired⟩
    rw [take_bytes, trailing_bytes rfl] at hpaired
    exact ⟨before, after, rfl, rfl, hpaired⟩
  · rintro ⟨before, after, rfl, rfl, hpaired⟩
    refine ⟨⟨before, after, rfl, rfl⟩, ?_⟩
    rwa [take_bytes, trailing_bytes rfl]

-- ======================================================================== bodies

section
variable {quote : Char} (body : List Char) {cs : List Char}

/-- A body ends before a quote that closes it. No backslash at its end is
without something that it protects. -/
theorem splitBodyFrom_paired (hbody : Paired body.reverse) {b rest : List Char}
    (h : splitBodyFrom quote body cs = some (b, rest)) : Paired b := by
  fun_induction splitBodyFrom quote body cs with
  | case1 | case3 => cases h
  | case2 | case5 =>
    cases h
    exact hbody
  | case4 body d cs ih =>
    refine ih ?_ h
    rw [List.reverse_cons, List.reverse_cons, List.append_assoc]
    exact paired_append_pair hbody d
  | case6 body c d cs hslash _ ih =>
    refine ih ?_ h
    rw [List.reverse_cons]
    exact paired_concat hslash _

/-- A quote that closes is not passed. There may be one before it that closes,
too, and then the body ends there. -/
theorem splitBodyFrom_complete (hquote : quote ≠ '\\') (hbody : Paired body.reverse)
    {before after : List Char} (hcs : cs = before ++ quote :: after)
    (hbefore : Paired (body.reverse ++ before)) :
    ∃ b rest, splitBodyFrom quote body cs = some (b, rest)
      ∧ width b ≤ width (body.reverse ++ before) := by
  fun_induction splitBodyFrom quote body cs generalizing before with
  | case1 => exact absurd hcs.symm (List.append_ne_nil_of_right_ne_nil _ (List.cons_ne_nil _ _))
  | case2 | case5 =>
    refine ⟨_, _, rfl, ?_⟩
    rw [width_append]
    omega
  | case3 body c hc =>
    cases before with
    | nil => exact absurd (List.cons.inj hcs).1 hc
    | cons x xs => simp at hcs
  -- a protected character: the closing quote is behind it, for what is before that quote is
  -- paired
  | case4 body d cs ih =>
    rcases before with _ | ⟨x, _ | ⟨y, before⟩⟩
    · exact absurd (List.cons.inj hcs).1.symm hquote
    · obtain rfl : '\\' = x := (List.cons.inj hcs).1
      exact absurd hbefore (not_paired_concat hbody)
    · simp only [List.cons_append, List.cons.injEq] at hcs
      obtain ⟨rfl, rfl, rfl⟩ := hcs
      have hreverse : (d :: '\\' :: body).reverse ++ before
          = body.reverse ++ '\\' :: d :: before := by simp
      rw [← hreverse] at hbefore ⊢
      refine ih ?_ rfl hbefore
      rw [List.reverse_cons, List.reverse_cons, List.append_assoc]
      exact paired_append_pair hbody d
  | case6 body c d cs hslash hc ih =>
    cases before with
    | nil => exact absurd (List.cons.inj hcs).1 hc
    | cons x before =>
      obtain ⟨rfl, htail⟩ := List.cons.inj hcs
      have hreverse : (c :: body).reverse ++ before = body.reverse ++ c :: before := by simp
      rw [← hreverse] at hbefore ⊢
      refine ih ?_ htail hbefore
      rw [List.reverse_cons]
      exact paired_concat hslash _

end

variable {quote : Char} {cs : List Char}

/-- A body ends where a quote closes it. -/
theorem closes_of_splitBody (hquote : quote.utf8Size = 1) {body rest : List Char}
    (h : splitBody quote cs = some (body, rest)) : Closes quote (bytes cs) (width body) := by
  rw [closes_iff hquote]
  exact ⟨body, rest, splitBody_eq h, rfl, splitBodyFrom_paired [] paired_nil h⟩

/-- A body ends at the first quote that closes. -/
theorem splitBody_of_closesFirst (hquote : quote.utf8Size = 1) (hslash : quote ≠ '\\') {i : Nat}
    (h : ClosesFirst quote (bytes cs) i) :
    ∃ body rest, splitBody quote cs = some (body, rest) ∧ width body = i := by
  obtain ⟨hcloses, hfirst⟩ := h
  obtain ⟨before, after, hcs, rfl, hpaired⟩ := (closes_iff hquote).1 hcloses
  obtain ⟨body, rest, hsplit, hle⟩ := splitBodyFrom_complete [] hslash paired_nil hcs hpaired
  refine ⟨body, rest, hsplit, Nat.le_antisymm hle ?_⟩
  apply Nat.le_of_not_lt
  intro hlt
  exact hfirst _ hlt (closes_of_splitBody hquote hsplit)

/-- Without a quote that closes there is no body. -/
theorem splitBody_eq_none (hquote : quote.utf8Size = 1)
    (h : ∀ i, ¬ Closes quote (bytes cs) i) : splitBody quote cs = none := by
  cases hsplit : splitBody quote cs with
  | none => rfl
  | some found => exact absurd (closes_of_splitBody hquote hsplit) (h _)

end StringLiteral

-- ====================================================================== lexemes

open StringLiteral (ClosesFirst Closes)

/-- The quotes that string literals stand between. -/
def IsQuote (c : Char) : Prop := c = '\x22' ∨ c = '\x27'

/-- The text of a body between quotes of a kind; only double quotes can have a
faulty code point. -/
def decodeBetween (quote : Char) (body : List Char) : Except (Nat × Nat) (List Char) :=
  if quote = '\x22' then StringLiteral.decodeDouble body else .ok (StringLiteral.decodeSingle body)

theorem IsQuote.ascii {c : Char} (h : IsQuote c) :
    c.utf8Size = 1 ∧ c ≠ '\\' ∧ isSpace c = false := by
  obtain rfl | rfl := h <;> decide

/-- Literals of both kinds are found in the same way. -/
theorem ofChars_quote {quote : Char} (hquote : IsQuote quote) (atLineStart : Bool)
    (cs : List Char) : Lexeme.ofChars atLineStart quote cs =
      match StringLiteral.splitBody quote cs with
      | none => .error ⟨.unterminatedString, ⟨0, width (quote :: cs)⟩⟩
      | some (body, rest) =>
        match decodeBetween quote body with
        | .error (start, stop) => .error ⟨.invalidCodePoint, ⟨1 + start, 1 + stop⟩⟩
        | .ok value => .ok ⟨.string (String.ofList value), quote :: (body ++ [quote]), rest⟩ := by
  obtain rfl | rfl := hquote <;> rfl

-- =============================================================== whole sources

/-- A literal that a scan comes to ends at the first quote that closes it, and
its body is what stands between: the scan goes on behind it, unless a code
point in the body is faulty. Then the source has no tokens; where the code
point stands is said of sources within the limit of offsets. Nor has it any
without such a quote. -/
theorem ofSource_quoted {source : String} {tokens : List Token} {position : Nat}
    {gap rest : List Char} {quote : Char} (hquote : IsQuote quote) (hgap : gap.all isSpace = true)
    (hreaches : Reaches source.toList tokens position (gap ++ quote :: rest)) :
    let start := position + width gap
    (∀ i, ClosesFirst quote (bytes rest) i → ∃ body after,
      rest = body ++ quote :: after ∧ width body = i ∧
        match decodeBetween quote body with
        | .ok value =>
          let token : Token := ⟨.string (String.ofList value), ⟨start, start + 1 + i + 1⟩⟩
          Reaches source.toList (tokens ++ [token]) (start + 1 + i + 1) after
            ∧ ∀ comments ts, ofSourceKeeping comments source = .ok ts → token.saturate ∈ ts
        | .error (first, last) => ∀ comments, ∃ span,
          ofSourceKeeping comments source = .error ⟨.invalidCodePoint, span⟩
            ∧ (width source.toList ≤ Span.maxOffset →
              span = ⟨start + 1 + first, start + 1 + last⟩))
      ∧ ((∀ i, ¬ Closes quote (bytes rest) i) → ∀ comments, ofSourceKeeping comments source
          = .error ⟨.unterminatedString, Span.saturate ⟨start, width source.toList⟩⟩) := by
  intro start
  obtain ⟨hascii, hslash, hspace⟩ := hquote.ascii
  have hlexeme := ofChars_quote hquote (beginsLine position gap) rest
  have hone (body : List Char) : width (quote :: (body ++ [quote])) = 1 + width body + 1 := by
    rw [width_cons, width_append, width_cons, width_nil, hascii, Nat.add_assoc]
  refine ⟨fun i hi => ?_, fun hnone comments => ?_⟩
  · obtain ⟨body, after, hsplit, rfl⟩ :=
      StringLiteral.splitBody_of_closesFirst hascii hslash hi
    refine ⟨body, after, StringLiteral.splitBody_eq hsplit, rfl, ?_⟩
    rw [hsplit] at hlexeme
    cases hdecode : decodeBetween quote body with
    | ok value =>
      simp only [hdecode] at hlexeme
      have hmade := hreaches.lexeme hgap hspace hlexeme
      simp only [hone, ← Nat.add_assoc] at hmade
      refine ⟨hmade, fun comments ts hts => ?_⟩
      exact hmade.saturate_mem hts List.mem_concat_self (Bool.or_true comments)
    | error found =>
      intro comments
      simp only [hdecode] at hlexeme
      have herror := hreaches.ofSource_error hgap hspace hlexeme comments
      refine ⟨_, herror, fun hwidth => ?_⟩
      -- within the limit no offset is held back
      have hexact := hreaches.ofSource_error_of_width_le hwidth hgap hspace hlexeme comments
      rw [herror] at hexact
      refine (congrArg LexicalError.span (Except.error.inj hexact)).trans ?_
      simp only [LexicalError.shift, Span.shift, Nat.add_assoc, start]
  · rw [StringLiteral.splitBody_eq_none hascii hnone] at hlexeme
    obtain ⟨passed, hsource, hpassed⟩ := hreaches.exists_passed
    rw [hreaches.ofSource_error hgap hspace hlexeme, hsource, width_append, width_append, hpassed]
    simp only [LexicalError.shift, LexicalError.saturate, Span.shift, Nat.add_assoc, start,
      Nat.add_zero]

/-- A backslash in front of a character of two bytes, and one in front of a
quote: the literal goes on to the second quote, which is five bytes on. A
quote behind a single backslash does not close. -/
theorem ofSource_quoted_escaped :
    ClosesFirst '\x27' (bytes ['\\', 'é', '\\', '\x27', '\x27']) 5
      ∧ Reaches "'\\é\\''".toList [⟨.string "\\é'", ⟨0, 7⟩⟩] 7 []
      ∧ (∀ i, ¬ Closes '\x22' (bytes ['\\', '\x22']) i)
      ∧ ofSource "\"\\\"" = .error ⟨.unterminatedString, ⟨0, 3⟩⟩ := by
  have hfirst : ClosesFirst '\x27' (bytes ['\\', 'é', '\\', '\x27', '\x27']) 5 := by decide
  have hnone : ∀ i, ¬ Closes '\x22' (bytes ['\\', '\x22']) i := by
    intro i hi
    have hlt : i < 2 := (List.getElem?_eq_some_iff.1 hi.1).1
    have hshort : ∀ j < 2, ¬ Closes '\x22' (bytes ['\\', '\x22']) j := by decide
    exact hshort i hlt hi
  have hquoted := @ofSource_quoted "'\\é\\''" [] 0 [] ['\\', 'é', '\\', '\x27', '\x27'] '\x27'
    (.inr rfl) rfl .start
  have hopen := @ofSource_quoted "\"\\\"" [] 0 [] ['\\', '\x22'] '\x22' (.inl rfl) rfl .start
  refine ⟨hfirst, ?_, hnone, hopen.2 hnone false⟩
  obtain ⟨body, after, hrest, hwidth, hmade⟩ := hquoted.1 5 hfirst
  have hsplit := split?_width_append body ('\x27' :: after)
  rw [← hrest, hwidth] at hsplit
  have hexpected := split?_width_append ['\\', 'é', '\\', '\x27'] ['\x27']
  obtain ⟨rfl, hafter⟩ := Prod.mk.inj (Option.some.inj (hexpected.symm.trans hsplit))
  obtain rfl := (List.cons.inj hafter).2
  exact hmade.1

end UiScript.Token
