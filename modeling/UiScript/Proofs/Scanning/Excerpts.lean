/-
An excerpt of a text is scanned as it is where it stands. Some tokens in a
row, from the first of them to the last, are the tokens of the characters
between: no lexeme looks at what comes before it, but for whether a line
begins, and none needs what comes after it.

Two kinds of tokens are left out. A comment or an equals sign cannot come
first, since at the beginning of a text it may be read differently; and with
an equals sign the text may be cut off where it starts a block comment.

# Main statements

* `scan_behind`: what is left of a scan behind its first tokens.
* `scan_from_token`: a scan that starts with a token.
* `scan_cut`: a scan that stops behind a token.
* `scan_excerpt`: all of this for some tokens in a row.
-/
import UiScript.Proofs.Scanning.Cutoff
import UiScript.Proofs.Scanning.Joining
import UiScript.Proofs.Scanning.Tiling

namespace UiScript.Token

open Text
open Lexeme (isSpace)

variable {position : Nat} {cs : List Char} {t : Token} {us ts : List Token}

-- ================================================================= beginnings

/-- The tokens behind others are those of what is left of the text. No token
takes anything of what is behind it. -/
theorem scan_behind (h : scan [] position cs = .ok (us ++ ts))
    (hus : ∀ u ∈ us, u.kind.isEnd = false) :
    ∃ passed rest, cs = passed ++ rest ∧ scan [] (position + width passed) rest = .ok ts := by
  induction us generalizing position cs with
  | nil => exact ⟨[], cs, rfl, h⟩
  | cons u us ih =>
    obtain ⟨hu, hus⟩ := List.forall_mem_cons.1 hus
    obtain ⟨gap, c, rest, x, rfl, -, -, hx, -, hscan⟩ := exists_lexeme_of_scan h hu
    obtain ⟨passed, left, hleft, hbehind⟩ := ih hscan hus
    refine ⟨gap ++ (x.text ++ passed), left, ?_, ?_⟩
    · rw [← Lexeme.text_append_rest hx, hleft]
      simp
    · rwa [width_append, width_append, ← Nat.add_assoc, ← Nat.add_assoc]

/-- From where a token starts, the text is scanned as if it started there.
Comments and equals signs are left out, for they depend on where the line
begins. -/
theorem scan_from_token (h : scan [] position cs = .ok (t :: ts)) (ht : t.kind.isEnd = false)
    (hcomment : t.isComment = false) (hequals : t.kind ≠ .punctuation '=') :
    ∃ gap rest, cs = gap ++ rest ∧ t.span.start = position + width gap
      ∧ shiftAll t.span.start (scan [] 0 rest) = .ok (t :: ts) := by
  obtain ⟨gap, c, rest, x, rfl, -, hc, hx, rfl, hscan⟩ := exists_lexeme_of_scan h ht
  refine ⟨gap, c :: rest, rfl, rfl, ?_⟩
  have hpos := (width_lexeme hx).2
  have hmoved : scan [] (position + width gap + width x.text) x.rest
      = shiftAll (position + width gap) (scan [] (width x.text) x.rest) :=
    scan_eq_shiftAll rfl (beginsLine_of_pos (by omega) hpos _) (Nat.add_assoc ..)
  rw [hmoved] at hscan
  cases hrest : scan [] (width x.text) x.rest with
  | error e =>
    rw [hrest] at hscan
    cases hscan
  | ok ts' =>
    rw [hrest] at hscan
    have hfirst : scan [] 0 ([] ++ c :: rest)
        = .ok (⟨x.kind, ⟨0, width x.text⟩⟩ :: ts') :=
      scan_next [] rfl hc (Lexeme.ofChars_anywhere hx hcomment hequals _) rfl
        (Nat.zero_add _) hrest
    rw [List.nil_append] at hfirst
    rw [hfirst]
    obtain rfl := Except.ok.inj hscan
    rfl

-- ======================================================================= ends

/-- A text that is cut off behind a token has the tokens up to there. The
induction is on the tokens before the cut. -/
theorem scan_cut (h : scan [] position cs = .ok (us ++ ts))
    (hus : ∀ u ∈ us, u.kind.isEnd = false ∧ u.kind ≠ .punctuation '=') :
    ∃ text rest, cs = text ++ rest
      ∧ (us.getLast?.map (·.span.stop)).getD position = position + width text
      ∧ scan [] position text = .ok (us ++ [⟨.endOfInput, .point (position + width text)⟩]) := by
  induction us generalizing position cs with
  | nil => exact ⟨[], cs, rfl, rfl, scan_nil position⟩
  | cons u us ih =>
    obtain ⟨⟨hu, hequals⟩, hothers⟩ := List.forall_mem_cons.1 hus
    obtain ⟨gap, c, after, x, rfl, hgap, hc, hx, rfl, hscan⟩ := exists_lexeme_of_scan h hu
    obtain ⟨text, rest, hrest, hstop, hcut⟩ := ih hscan hothers
    -- what the lexeme and the following tokens come from
    have hwhole := Lexeme.text_append_rest hx
    obtain ⟨text', htext'⟩ : ∃ text', x.text = c :: text' := by
      cases hlexeme : x.text with
      | nil => exact absurd hlexeme (Lexeme.text_ne_nil hx)
      | cons d ds =>
        rw [hlexeme] at hwhole
        exact ⟨ds, by rw [(List.cons.inj hwhole).1]⟩
    have hafter : after = text' ++ text ++ rest := by
      rw [htext', hrest] at hwhole
      rw [List.append_assoc]
      exact (List.cons.inj hwhole).2.symm
    subst hafter
    have hlonger : Lexeme.ofChars (beginsLine position gap) c (text' ++ text ++ rest)
        = .ok (Lexeme.followedBy ⟨x.kind, x.text, text⟩ rest) := by
      rw [hx, Lexeme.followedBy, ← hrest]
    have hx' : Lexeme.ofChars (beginsLine position gap) c (text' ++ text)
        = .ok ⟨x.kind, x.text, text⟩ := Lexeme.ofChars_cut hlonger hequals
    have hwidth : position + width (gap ++ c :: (text' ++ text))
        = position + width gap + width x.text + width text := by
      simp only [htext', width_append, width_cons]
      omega
    refine ⟨gap ++ c :: (text' ++ text), rest, by simp, ?_, ?_⟩
    · rw [hwidth, ← hstop, List.getLast?_cons]
      cases us.getLast? <;> rfl
    · rw [hwidth]
      exact scan_next gap hgap hc hx' rfl rfl hcut

-- =================================================================== excerpts

/-- Some tokens in a row are, moved to the beginning, the tokens of what
stands between the start of the first one and the end of the last one. -/
theorem scan_excerpt {before after : List Token} {stop : Nat}
    (h : scan [] 0 cs = .ok (before ++ (t :: us ++ after)))
    (hbefore : ∀ u ∈ before, u.kind.isEnd = false)
    (hus : ∀ u ∈ t :: us, u.kind.isEnd = false ∧ u.kind ≠ .punctuation '=')
    (hcomment : t.isComment = false)
    (hstop : (t :: us).getLast?.map (·.span.stop) = some stop) :
    ∃ passed text more vs finish, cs = passed ++ (text ++ more) ∧ width passed = t.span.start
      ∧ width passed + width text = stop
      ∧ scan [] 0 text = .ok (vs ++ [⟨.endOfInput, finish⟩])
      ∧ vs.map (shift t.span.start) = t :: us := by
  obtain ⟨passed, left, rfl, hleft⟩ := scan_behind h hbefore
  obtain ⟨ht, hequals⟩ := hus t List.mem_cons_self
  obtain ⟨gap, rest, rfl, hstart, hmoved⟩ := scan_from_token hleft ht hcomment hequals
  rw [Nat.zero_add, ← width_append] at hstart
  -- what starts with the token is scanned as if it stood at the beginning, and then cut off
  cases hscan : scan [] 0 rest with
  | error e =>
    rw [hscan] at hmoved
    cases hmoved
  | ok all =>
    rw [hscan] at hmoved
    have hall : all.map (shift t.span.start) = t :: us ++ after := Except.ok.inj hmoved
    obtain ⟨vs, ws, rfl, hvs, -⟩ := List.map_eq_append_iff.1 hall
    have hkinds : ∀ v ∈ vs, v.kind.isEnd = false ∧ v.kind ≠ .punctuation '=' := by
      intro v hv
      have hmem : v.shift t.span.start ∈ t :: us := hvs ▸ List.mem_map_of_mem hv
      exact hus (v.shift t.span.start) hmem
    obtain ⟨text, more, rfl, hlast, hcut⟩ := scan_cut hscan hkinds
    refine ⟨passed ++ gap, text, more, vs, _, by simp, hstart.symm, ?_, hcut, hvs⟩
    rw [← hvs, List.getLast?_map, Option.map_map] at hstop
    obtain ⟨v, hv, rfl⟩ := Option.map_eq_some_iff.1 hstop
    rw [hv] at hlast
    have hv' : v.span.stop = 0 + width text := hlast
    show _ = t.span.start + v.span.stop
    rw [hv', hstart, Nat.zero_add]

end UiScript.Token
