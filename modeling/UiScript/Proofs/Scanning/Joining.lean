/-
Scanning goes line by line. A text that can be scanned, a line break and
another text are scanned as the two texts are, one after the other, with
everything in the second moved to where it stands: nothing that a lexeme
looks at reaches across the break, and whether a line begins is all that the
second text has to know about the first.

# The induction

`scan` looks at its position only to see whether it is zero, and puts it
into the spans. Two scans of the same text therefore differ by a shift, once
they agree on whether a line begins (`scan_eq_shiftAll`); all other
statements about moved texts are cases of this one.

# Main statements

* `scan_tokens`: the end of the input is the last token, and is only there.
* `scan_join`: the scan of two texts with a line break between them.
* `ofSource_lineBreak`: the same of whole sources.
-/
import UiScript.Proofs.Scanning.Bounds
import UiScript.Proofs.Scanning.LineBreak
import UiScript.Proofs.Scanning.Steps
import UiScript.Proofs.Shift

namespace UiScript.Token

open Text
open Lexeme (isSpace)

-- ==================================================================== shifting

/-- What a scan comes to, `d` bytes further on. -/
def shiftAll (d : Nat) : Except LexicalError (List Token) → Except LexicalError (List Token)
  | .error e => .error (e.shift d)
  | .ok ts => .ok (ts.map (shift d))

theorem shiftAll_zero (r : Except LexicalError (List Token)) : shiftAll 0 r = r := by
  cases r with
  | error e => simp [shiftAll, LexicalError.shift]
  | ok ts =>
    have hid : shift 0 = id := funext shift_zero
    simp [shiftAll, hid]

theorem shiftAll_shiftAll (d e : Nat) (r : Except LexicalError (List Token)) :
    shiftAll d (shiftAll e r) = shiftAll (d + e) r := by
  cases r with
  | error e => simp [shiftAll, LexicalError.shift_shift]
  | ok ts => simp [shiftAll, shift_shift]

theorem shiftAll_map_cons (d : Nat) (t : Token) (r : Except LexicalError (List Token)) :
    shiftAll d (r.map (t :: ·)) = (shiftAll d r).map (t.shift d :: ·) := by
  cases r <;> rfl

theorem shiftAll_map_append (d : Nat) (us : List Token) (r : Except LexicalError (List Token)) :
    shiftAll d (r.map (us ++ ·)) = (shiftAll d r).map (us.map (shift d) ++ ·) := by
  cases r <;> simp [shiftAll, Except.map]

-- =================================================================== line starts

/-- Spaces tell whether a line begins; the position is looked at only if there
are none. -/
theorem beginsLine_eq {spaces : List Char} (h : spaces ≠ []) (p q : Nat) :
    beginsLine p spaces = beginsLine q spaces := by
  unfold beginsLine
  cases hlast : spaces.getLast? with
  | none => exact absurd (List.getLast?_eq_none_iff.1 hlast) h
  | some c => rfl

theorem beginsLine_append {spaces : List Char} (h : spaces ≠ []) (before : List Char) (p : Nat) :
    beginsLine p (before ++ spaces) = beginsLine p spaces := by
  unfold beginsLine
  rw [List.getLast?_append, List.getLast?_eq_some_getLast h]
  rfl

/-- Past the beginning of the source, the position does not tell. -/
theorem beginsLine_of_pos {p q : Nat} (hp : 0 < p) (hq : 0 < q) (spaces : List Char) :
    beginsLine p spaces = beginsLine q spaces := by
  cases spaces with
  | nil =>
    show (p == 0) = (q == 0)
    rw [beq_eq_false_iff_ne.2 (by omega), beq_eq_false_iff_ne.2 (by omega)]
  | cons s ss => exact beginsLine_eq (List.cons_ne_nil s ss) p q

-- ================================================================== moved texts

/-- Scans of the same text, after spaces of whatever kind, agree but for a
shift, if they agree on whether a line begins. -/
theorem scan_eq_shiftAll {d p p' : Nat} {cs cs' : List Char}
    (hbody : cs'.dropWhile isSpace = cs.dropWhile isSpace)
    (hline : beginsLine p' (cs'.takeWhile isSpace) = beginsLine p (cs.takeWhile isSpace))
    (hstart : p' + width (cs'.takeWhile isSpace) = d + (p + width (cs.takeWhile isSpace))) :
    scan [] p' cs' = shiftAll d (scan [] p cs) := by
  induction hn : cs.length using Nat.strongRecOn generalizing p p' cs cs' with
  | ind n ih =>
    rw [scan_step p', scan_step p]
    dsimp only
    rw [hbody, hline, hstart]
    cases hb : cs.dropWhile isSpace with
    | nil => rfl
    | cons c rest =>
      dsimp only
      cases hx : Lexeme.ofChars (beginsLine p (cs.takeWhile isSpace)) c rest with
      | error e => simp [shiftAll, LexicalError.shift_shift]
      | ok x =>
        have hlt := rest_length_lt_of_body hb hx
        obtain ⟨-, hpos⟩ := width_lexeme hx
        dsimp only
        rw [shiftAll_map_cons, Nat.add_assoc d]
        rw [ih _ (hn ▸ hlt) (p := p + width (cs.takeWhile isSpace) + width x.text) rfl ?_ ?_ rfl]
        · rfl
        · exact beginsLine_of_pos (by omega) (by omega) _
        · omega

/-- After a line break, a text is scanned as at the beginning. -/
theorem scan_break (p : Nat) (cs : List Char) :
    scan [] p ('\n' :: cs) = shiftAll (p + 1) (scan [] 0 cs) := by
  refine scan_eq_shiftAll rfl ?_ ?_
  · rw [List.takeWhile_cons_of_pos rfl]
    cases cs.takeWhile isSpace with
    | nil => rfl
    | cons s ss =>
      have hne := List.cons_ne_nil s ss
      rw [← List.singleton_append, beginsLine_append hne, beginsLine_eq hne p 0]
  · rw [List.takeWhile_cons_of_pos rfl, width_cons]
    have : ('\n').utf8Size = 1 := rfl
    omega

/-- Spaces before a line break do not matter. -/
theorem scan_spaces_break {spaces : List Char} (hspaces : ∀ c ∈ spaces, isSpace c = true) (p : Nat)
    (cs : List Char) :
    scan [] p (spaces ++ '\n' :: cs) = scan [] (p + width spaces) ('\n' :: cs) := by
  rw [← shiftAll_zero (scan [] (p + width spaces) ('\n' :: cs))]
  refine scan_eq_shiftAll ?_ ?_ ?_
  · rw [List.dropWhile_append_of_pos hspaces]
  · rw [List.takeWhile_append_of_pos hspaces, List.takeWhile_cons_of_pos rfl]
    have hne := List.cons_ne_nil '\n' (cs.takeWhile isSpace)
    rw [beginsLine_append hne, beginsLine_eq hne]
  · rw [List.takeWhile_append_of_pos hspaces, width_append]
    omega

-- ================================================================= two texts

/-- The end of the input is the last token, and is only there. What follows a
line break after the text is scanned as if the text were not there. -/
theorem scan_tokens {position : Nat} {cs : List Char} {tokens : List Token}
    (h : scan [] position cs = .ok tokens) :
    ∃ us, tokens = us ++ [⟨.endOfInput, .point (position + width cs)⟩]
      ∧ (∀ u ∈ us, u.kind.isEnd = false)
      ∧ ∀ ds, scan [] position (cs ++ '\n' :: ds)
        = (scan [] (position + width cs) ('\n' :: ds)).map (us ++ ·) := by
  refine scan_induct ?_ ?_ h
  · intro position gap hgap
    refine ⟨[], rfl, by simp, fun ds => ?_⟩
    rw [scan_spaces_break (List.all_eq_true.1 hgap)]
    cases scan [] (position + width gap) ('\n' :: ds) <;> rfl
  · intro position gap c rest x ts hgap hc hx hrest
    obtain ⟨us, rfl, hends, hmore⟩ := hrest
    -- the end of the text is the same place, told from behind the lexeme
    have hstop : position + width gap + width x.text + width x.rest
        = position + width (gap ++ c :: rest) := by
      rw [width_append, ← (width_lexeme hx).1]
      omega
    rw [hstop] at hmore ⊢
    refine ⟨_ :: us, rfl, ?_, fun ds => ?_⟩
    · intro u hu
      rcases List.mem_cons.1 hu with rfl | hu
      · exact Lexeme.isEnd_eq_false_of_ofChars hx
      · exact hends u hu
    · rw [List.append_assoc, List.cons_append, scan_gap position hgap hc, Lexeme.ofChars_append hx]
      simp only [Lexeme.followedBy]
      rw [hmore]
      cases scan [] (position + width (gap ++ c :: rest)) ('\n' :: ds) <;> rfl

/-- Two texts with a line break between them are scanned as they are on their
own. The line break separates the last token of the one from the first of the
other, and begins a line, as the start of a source does. -/
theorem scan_join {cs : List Char} {us : List Token} {finish : Span}
    (h : scan [] 0 cs = .ok (us ++ [⟨.endOfInput, finish⟩])) (ds : List Char) :
    scan [] 0 (cs ++ '\n' :: ds) = (shiftAll (width cs + 1) (scan [] 0 ds)).map (us ++ ·) := by
  obtain ⟨us', heq, -, hmore⟩ := scan_tokens h
  obtain ⟨rfl, -⟩ := List.append_inj' heq rfl
  rw [hmore, scan_break, Nat.zero_add]

-- =============================================================== whole sources

/-- A source that goes on behind a line break has its own tokens, without the
end of the input, and then those of the rest, moved to where they stand; or
the error of the rest, moved as far. -/
theorem ofSource_lineBreak {a b : String} {tokens : List Token}
    (hwidth : width a.toList + 1 + width b.toList ≤ Span.maxOffset)
    (h : ofSourceWithComments a = .ok tokens) :
    ∃ us, tokens = us ++ [⟨.endOfInput, .point (width a.toList)⟩]
      ∧ (∀ u ∈ us, u.kind ≠ .endOfInput)
      ∧ ofSourceWithComments (a ++ "\n" ++ b) = match ofSourceWithComments b with
        | .ok ts => .ok (us ++ ts.map (shift (width a.toList + 1)))
        | .error e => .error (e.shift (width a.toList + 1)) := by
  have ha : width a.toList ≤ Span.maxOffset := by omega
  have hb : width b.toList ≤ Span.maxOffset := by omega
  have htoList : (a ++ "\n" ++ b).toList = a.toList ++ '\n' :: b.toList := by
    simp [String.toList_append]
  have hjoined : width (a ++ "\n" ++ b).toList ≤ Span.maxOffset := by
    have hbreak : ('\n').utf8Size = 1 := rfl
    rw [htoList, width_append, width_cons, hbreak]
    omega
  rw [ofSourceWithComments_eq_scan ha] at h
  obtain ⟨us, rfl, hends, -⟩ := scan_tokens h
  rw [Nat.zero_add] at h ⊢
  refine ⟨us, rfl, ?_, ?_⟩
  · intro u hu hkind
    have hend := hends u hu
    rw [hkind] at hend
    cases hend
  · rw [ofSourceWithComments_eq_scan hjoined, ofSourceWithComments_eq_scan hb, htoList, scan_join h]
    cases scan [] 0 b.toList <;> rfl

/-- A numeral and a point, and a block comment behind the line break: the
comment stands at the start of a line there as it does in its own source. -/
theorem ofSource_lineBreak_point :
    let first : List Token := [⟨.number (.int 1), ⟨0, 1⟩⟩, ⟨.punctuation '.', ⟨1, 2⟩⟩]
    ofSourceWithComments "1." = .ok (first ++ [⟨.endOfInput, ⟨2, 2⟩⟩])
      ∧ ofSourceWithComments "=begin\n=end" = .ok [⟨.comment "", ⟨0, 11⟩⟩, ⟨.endOfInput, ⟨11, 11⟩⟩]
      ∧ ofSourceWithComments "1.\n=begin\n=end"
        = .ok (first ++ [⟨.comment "", ⟨3, 14⟩⟩, ⟨.endOfInput, ⟨14, 14⟩⟩]) := by
  intro first
  have hfirst : ofSourceWithComments "1." = .ok (first ++ [⟨.endOfInput, ⟨2, 2⟩⟩]) := by
    rw [ofSourceWithComments_eq_scan (by decide)]
    exact scan_next [] rfl rfl rfl rfl rfl (scan_next [] rfl rfl rfl rfl rfl (scan_nil 2))
  have hsecond : ofSourceWithComments "=begin\n=end"
      = .ok [⟨.comment "", ⟨0, 11⟩⟩, ⟨.endOfInput, ⟨11, 11⟩⟩] := by
    rw [ofSourceWithComments_eq_scan (by decide)]
    exact scan_lexeme rfl rfl rfl
  have hwidth : width "1.".toList + 1 + width "=begin\n=end".toList ≤ Span.maxOffset := by decide
  obtain ⟨us, hus, -, hjoined⟩ := ofSource_lineBreak hwidth hfirst
  obtain ⟨rfl, -⟩ := List.append_inj' hus rfl
  rw [hsecond] at hjoined
  exact ⟨hfirst, hsecond, hjoined⟩

end UiScript.Token
