/-
Line endings. A source may end its lines with a line break alone, or with a
return and a line break. In both spellings it has the same tokens, but for the
returns that literals keep, and for one thing more: between double quotes, a
backslash at the end of a line joins the lines in the first spelling only.

# The simulation

The two spellings are scanned side by side (`scan_crlf`). A comment takes the
return at its end with it, and leaves the line break; so what is left of one
source is the other one's rest with returns, or that without the first return
(`Spells`). Both are the same to a scan, as spaces come first in either.

# Main statements

* `Lexeme.ofChars_crlf`: the same lexeme, up to what a literal stands for.
* `scan_crlf`: the same tokens.
* `ofSource_crlf`: what is said of a whole source.
* `ofSource_joined_ne`: the two spellings of a source that joins lines.
-/
import Mathlib.Data.List.Forall2
import UiScript.Proofs.Scanning.Reaching
import UiScript.Proofs.Scanning.Returns

namespace UiScript.Token

open Lexeme (isSpace)
open StringLiteral (Piece)

-- ================================================================= side by side

/-- The kind without the returns in the value of a literal. -/
def Kind.withoutReturns : Kind → Kind
  | .string value => .string (String.ofList (Token.withoutReturns value.toList))
  | kind => kind

/-- A body between double quotes in which a backslash at the end of a line
joins it to the next one. -/
def JoinsLines (body : List Char) : Prop :=
  ∃ ps : List Piece, (∀ p ∈ ps, p.Valid) ∧ body = StringLiteral.textOf ps
    ∧ .lineJoin ∈ ps

/-- Two literals for a body that joins lines: for the one they are joined, for
the other the line breaks are kept, and returns are not looked at. -/
def Joined (body : List Char) (kind kind' : Kind) : Prop :=
  ∃ (ps : List Piece) (value : List Char), (∀ p ∈ ps, p.Valid)
    ∧ body = StringLiteral.textOf ps ∧ .lineJoin ∈ ps
    ∧ kind = .string (String.ofList (StringLiteral.valueOf ps))
    ∧ kind' = .string (String.ofList value)
    ∧ withoutReturns value = withoutReturns (ps.flatMap Piece.kept)

section
variable {α β γ δ : Type}

/-- Both succeed, with results that are related, or both fail. -/
def Alongside (R : α → β → Prop) : Except LexicalError α → Except LexicalError β → Prop
  | .ok a, .ok b => R a b
  | .error _, .error _ => True
  | _, _ => False

/-- Two results are alongside if both are successes, related ones, or both are
failures. -/
theorem alongside_iff {R : α → β → Prop} {x : Except LexicalError α} {y : Except LexicalError β} :
    Alongside R x y ↔ (∃ a b, x = .ok a ∧ y = .ok b ∧ R a b)
      ∨ ∃ e e', x = .error e ∧ y = .error e' := by
  cases x <;> cases y <;> simp [Alongside]

/-- One succeeds if the other one does. -/
theorem Alongside.ok_iff {R : α → β → Prop} {x : Except LexicalError α} {y : Except LexicalError β}
    (h : Alongside R x y) : (∃ a, x = .ok a) ↔ ∃ b, y = .ok b := by
  obtain ⟨a, b, rfl, rfl, -⟩ | ⟨e, e', rfl, rfl⟩ := alongside_iff.1 h <;> simp

/-- What is made of related successes may be related in its turn. -/
theorem Alongside.map {R : α → β → Prop} {S : γ → δ → Prop} {x : Except LexicalError α}
    {y : Except LexicalError β} {f : α → γ} {g : β → δ} (h : Alongside R x y)
    (hRS : ∀ a b, R a b → S (f a) (g b)) : Alongside S (x.map f) (y.map g) := by
  cases x <;> cases y <;> first | exact h | exact hRS _ _ h

end

-- ==================================================================== lexemes

namespace Lexeme

/-- The second lexeme is the first one with returns: what is left behind them
is the same text, and they are of the same kind, but for a body that joins
lines. -/
structure Respelled (c : Char) (cs : List Char) (x x' : Lexeme) : Prop where
  rest : Spells x.rest x'.rest
  comment : x'.kind.isComment = x.kind.isComment
  kind : x.kind.isComment = false → x'.kind.withoutReturns = x.kind.withoutReturns
    ∨ c = '\x22' ∧ ∃ body after, StringLiteral.splitBody '\x22' cs = some (body, after)
      ∧ Joined body x.kind x'.kind

variable {c : Char} {cs : List Char}

/-- A lexeme of the same kind, behind which the same text is left. -/
theorem Respelled.of_same {x x' : Lexeme} (hrest : Spells x.rest x'.rest)
    (hkind : x'.kind = x.kind) : Respelled c cs x x' :=
  ⟨hrest, by rw [hkind], fun _ => .inl (by rw [hkind])⟩

/-- A line comment ends before the line break; the return that is now there
goes with it or stays in front of the rest. -/
theorem lineComment_crlf : Respelled c cs (lineComment cs) (lineComment (crlf cs)) :=
  ⟨spells_dropWhile cs, rfl, fun h => nomatch h⟩

/-- A block comment ends at the same marker, and what it says is not looked
at. -/
theorem blockComment_crlf :
    Alongside (Respelled c cs) (blockComment (c :: cs)) (blockComment (crlf (c :: cs))) := by
  have hends := splitCommentFrom_of_spells (spells_dropWhile (c :: cs))
  unfold blockComment
  dsimp only
  cases hsplit : splitCommentFrom [] ((c :: cs).dropWhile (· != '\n')) with
  | none =>
    rw [hsplit, Option.map_none, Option.map_eq_none_iff] at hends
    rw [hends]
    trivial
  | some found =>
    obtain ⟨body, closing⟩ := found
    rw [hsplit, Option.map_some, Option.map_eq_some_iff] at hends
    obtain ⟨⟨body', closing'⟩, hsplit', hclosing⟩ := hends
    obtain rfl : closing' = crlf closing := hclosing
    rw [hsplit']
    exact ⟨spells_dropWhile closing, rfl, fun h => nomatch h⟩

/-- A literal between single quotes keeps the returns of its lines, and is
otherwise the same. -/
theorem singleQuoted_crlf :
    Alongside (Respelled c cs) (singleQuoted cs) (singleQuoted (crlf cs)) := by
  unfold singleQuoted
  rw [StringLiteral.splitBody_crlf (.inr rfl)]
  cases StringLiteral.splitBody '\x27' cs with
  | none => trivial
  | some found =>
    obtain ⟨body, rest⟩ := found
    refine ⟨spells_crlf rest, rfl, fun _ => .inl ?_⟩
    show Kind.string _ = Kind.string _
    rw [StringLiteral.decodeSingle_crlf, String.toList_ofList, String.toList_ofList,
      withoutReturns_crlf]

/-- A literal between double quotes is the same but for returns, or it joins
lines. -/
theorem doubleQuoted_crlf :
    Alongside (Respelled '\x22' cs) (doubleQuoted cs) (doubleQuoted (crlf cs)) := by
  unfold doubleQuoted
  rw [StringLiteral.splitBody_crlf (.inl rfl)]
  cases hsplit : StringLiteral.splitBody '\x22' cs with
  | none => trivial
  | some found =>
    obtain ⟨body, rest⟩ := found
    have hpaired := StringLiteral.splitBodyFrom_paired [] StringLiteral.paired_nil hsplit
    dsimp only [Option.map_some]
    obtain ⟨ps, value, hps, hbody, hdecode, hdecode', hvalue⟩ | ⟨e, e', herror, herror'⟩ :=
      StringLiteral.decodeDouble_crlf hpaired
    · rw [hdecode, hdecode']
      refine ⟨spells_crlf rest, rfl, fun _ => ?_⟩
      by_cases hjoin : .lineJoin ∈ ps
      · exact .inr ⟨rfl, body, rest, hsplit, ps, value, hps, hbody, hjoin, rfl, rfl, hvalue⟩
      · left
        rw [StringLiteral.flatMap_kept hjoin] at hvalue
        show Kind.string _ = Kind.string _
        rw [String.toList_ofList, String.toList_ofList, hvalue]
    · rw [herror, herror']
      trivial

/-- A numeral has no line breaks in it, so no returns either. -/
theorem numeral_crlf : Respelled c cs (numeral (c :: cs)) (numeral (crlf (c :: cs))) := by
  unfold numeral
  rw [Numeral.split_crlf]
  exact .of_same (spells_crlf _) rfl

theorem nameFollows_crlf (cs : List Char) : nameFollows (crlf cs) = nameFollows cs := by
  cases cs with
  | nil => rfl
  | cons c cs =>
    by_cases hc : c = '\n'
    · subst hc
      rfl
    · rw [crlf_cons hc]
      rfl

theorem startsWithDigit_crlf (cs : List Char) :
    Numeral.startsWithDigit (crlf cs) = Numeral.startsWithDigit cs := by
  cases cs with
  | nil => rfl
  | cons c cs =>
    by_cases hc : c = '\n'
    · subst hc
      rfl
    · rw [crlf_cons hc]
      rfl

/-- A lexeme keeps its form: a marker of a block comment may be followed by a
return, too. -/
theorem formOf_crlf (atLineStart : Bool) (hc : c ≠ '\n') (cs : List Char) :
    formOf atLineStart c (crlf cs) = formOf atLineStart c cs := by
  have hmarked : isMarked openingMarker (c :: crlf cs) = isMarked openingMarker (c :: cs) := by
    rw [← crlf_cons hc]
    exact isMarked_crlf (by decide) (by decide) (c :: cs)
  unfold formOf
  rw [hmarked, nameFollows_crlf, startsWithDigit_crlf]

/-- A lexeme of any form is read with returns as without them, but for a body
that joins lines. -/
theorem Form.read_crlf {form : Form} (hc : c ≠ '\n') (hstarts : form.Starts c) :
    Alongside (Respelled c cs) (form.read c cs) (form.read c (crlf cs)) := by
  cases form with
  | lineComment => exact lineComment_crlf
  | blockComment =>
    rw [Form.read, Form.read, ← crlf_cons hc]
    exact blockComment_crlf
  | doubleQuoted =>
    obtain rfl : c = '\x22' := hstarts
    exact doubleQuoted_crlf
  | singleQuoted => exact singleQuoted_crlf
  | symbol =>
    refine .of_same (.inl (dropWhile_crlf (p := continuesName) rfl cs)) ?_
    show Kind.symbol _ = Kind.symbol _
    rw [takeWhile_crlf_of_stop rfl rfl]
  | numeral =>
    rw [Form.read, Form.read, ← crlf_cons hc]
    exact numeral_crlf
  | word =>
    rw [Form.read, Form.read, ← crlf_cons hc]
    refine .of_same (.inl (dropWhile_crlf (p := continuesName) rfl (c :: cs))) ?_
    show kindOfWord _ = kindOfWord _
    rw [takeWhile_crlf_of_stop rfl rfl]
  | mark => exact .of_same (spells_crlf cs) rfl

/-- The lexeme at the front of a text with returns is that of the text. -/
theorem ofChars_crlf (atLineStart : Bool) (hc : c ≠ '\n') (cs : List Char) :
    Alongside (Respelled c cs) (ofChars atLineStart c cs) (ofChars atLineStart c (crlf cs)) := by
  rw [ofChars_eq, ofChars_eq, formOf_crlf atLineStart hc]
  exact Form.read_crlf hc (formOf_starts atLineStart c cs)

end Lexeme

-- ===================================================================== sources

/-- The source with a return before each line break. -/
def withReturns (source : String) : String := String.ofList (crlf source.toList)

theorem toList_withReturns (source : String) : (withReturns source).toList = crlf source.toList :=
  String.toList_ofList

/-- A body between double quotes that a scan of the source comes to. -/
def IsBody (source body : List Char) : Prop :=
  ∃ tokens position gap rest after, Reaches source tokens position (gap ++ '\x22' :: rest)
    ∧ gap.all isSpace = true ∧ StringLiteral.splitBody '\x22' rest = some (body, after)

/-- Two kinds of tokens are the same but for returns, or for a body in which
lines are joined. -/
def SameKind (source : List Char) (kind kind' : Kind) : Prop :=
  kind'.withoutReturns = kind.withoutReturns ∨ ∃ body, IsBody source body ∧ Joined body kind kind'

/-- The second token is the first one with returns: both are comments, or
their kinds agree. -/
structure SameToken (source : List Char) (t t' : Token) : Prop where
  comment : t'.isComment = t.isComment
  kind : t.isComment = false → SameKind source t.kind t'.kind

/-- From a place in a source, and from one that spells the same, the same
tokens are scanned. The induction is on the text that is left. A return in
front of it is a space, and is skipped with the others. -/
theorem scan_crlf {source : List Char} (hsource : '\r' ∉ source) {before : List Token}
    {position position' : Nat} {rest rest' : List Char}
    (hreaches : Reaches source before position rest) (hspells : Spells rest rest')
    (hposition : position' = 0 ↔ position = 0) :
    Alongside (List.Forall₂ (SameToken source)) (scan [] position rest)
      (scan [] position' rest') := by
  have hreturn : '\r' ∉ rest := by
    obtain ⟨passed, rfl, -⟩ := hreaches.exists_passed
    exact fun h => hsource (List.mem_append_right passed h)
  have hbegins := hspells.beginsLine_eq hreturn hposition
  rw [scan_step, scan_step position' rest', hspells.dropWhile_isSpace]
  dsimp only
  rw [hbegins]
  cases hbody : rest.dropWhile isSpace with
  | nil => exact .cons ⟨rfl, fun _ => .inl rfl⟩ .nil
  | cons c cs =>
    have hspace : isSpace c = false := by
      have hfirst := List.head?_dropWhile_not isSpace rest
      rw [hbody] at hfirst
      simpa using hfirst
    have hc : c ≠ '\n' := by
      rintro rfl
      cases hspace
    have hgap : (rest.takeWhile isSpace).all isSpace = true := List.all_takeWhile
    -- the lexeme stands at a place that the scan reaches, which is what a joined body has to
    -- name
    have hthere : Reaches source before position (rest.takeWhile isSpace ++ c :: cs) := by
      rwa [← hbody, List.takeWhile_append_dropWhile]
    have hlexeme := Lexeme.ofChars_crlf (beginsLine position (rest.takeWhile isSpace)) hc cs
    rw [crlf_cons hc]
    dsimp only
    obtain ⟨x, x', hx, hx', hlexeme⟩ | ⟨e, e', herror, herror'⟩ := alongside_iff.1 hlexeme
    -- the rests are spelled alike, so the induction goes on; both positions are past the start
    · rw [hx, hx']
      have hless := rest_length_lt_of_body hbody hx
      have hpos := (width_lexeme hx).2
      have hpos' := (width_lexeme hx').2
      refine (scan_crlf hsource (hthere.lexeme hgap hspace hx) hlexeme.rest (by omega)).map
        fun ts ts' hts => .cons ⟨hlexeme.comment, fun hcomment => ?_⟩ hts
      refine (hlexeme.kind hcomment).imp_right fun hjoined => ?_
      obtain ⟨rfl, body, after, hsplit, hjoined⟩ := hjoined
      exact ⟨body, ⟨before, position, _, cs, after, hthere, hgap, hsplit⟩, hjoined⟩
    · rw [herror, herror']
      trivial
termination_by rest.length

/-- The two spellings have tokens or not, and the same ones. -/
theorem ofSource_alongside {source : String} (hsource : '\r' ∉ source.toList) :
    Alongside (List.Forall₂ fun t t' => SameKind source.toList t.kind t'.kind) (ofSource source)
      (ofSource (withReturns source)) := by
  have hzero : (0 : Nat) = 0 ↔ (0 : Nat) = 0 := Iff.rfl
  have hscan := scan_crlf hsource .start (spells_crlf source.toList) hzero
  unfold ofSource ofSourceKeeping
  rw [scanWith_eq_map, scanWith_eq_map, toList_withReturns]
  obtain ⟨tokens, tokens', hplain, hbroken, hscan⟩ | ⟨e, e', herror, herror'⟩ :=
    alongside_iff.1 hscan
  · have hsame : List.Forall₂ (SameToken source.toList) (tokens.filter (isKept false))
        (tokens'.filter (isKept false)) :=
      List.rel_filter (fun t t' h => by simp [isKept, h.comment]) hscan
    have hkept : ∀ t ∈ tokens.filter (isKept false), t.isComment = false := by
      intro t ht
      simpa [isKept] using (List.mem_filter.1 ht).2
    rw [hplain, hbroken]
    show List.Forall₂ _ ((tokens.filter (isKept false)).map saturate)
      ((tokens'.filter (isKept false)).map saturate)
    rw [List.forall₂_map_left_iff, List.forall₂_map_right_iff]
    exact ((List.forall₂_and_left _ _).2 ⟨hkept, hsame⟩).imp fun t t' h => h.2.kind h.1
  · rw [herror, herror']
    trivial

/-- With a return before each of its line breaks, a source without returns has
tokens if it has any without them. They are as many, and of the same kinds one
by one, but for the returns in literals; where a backslash joins lines between
double quotes, the line break is kept. So they are of the same kinds if no
lines are joined. -/
theorem ofSource_crlf {source : String} (hsource : '\r' ∉ source.toList) :
    ((∃ tokens, ofSource source = .ok tokens) ↔ ∃ tokens, ofSource (withReturns source) = .ok tokens)
      ∧ ∀ tokens tokens',
        ofSource source = .ok tokens → ofSource (withReturns source) = .ok tokens' →
          List.Forall₂ (fun t t' => SameKind source.toList t.kind t'.kind) tokens tokens'
            ∧ ((∀ body, IsBody source.toList body → ¬ JoinsLines body) →
              tokens'.map (·.kind.withoutReturns) = tokens.map (·.kind.withoutReturns)) := by
  have hboth := ofSource_alongside hsource
  refine ⟨hboth.ok_iff, ?_⟩
  intro tokens tokens' htokens htokens'
  rw [htokens, htokens'] at hboth
  refine ⟨hboth, fun hnone => ?_⟩
  have hkinds : List.Forall₂ (fun t t' => t.kind.withoutReturns = t'.kind.withoutReturns)
      tokens tokens' := by
    refine List.Forall₂.imp (fun t t' h => (h.resolve_right ?_).symm) hboth
    rintro ⟨body, hbody, ps, value, hps, htext, hjoin, -⟩
    exact hnone body hbody ⟨ps, hps, htext, hjoin⟩
  have hmaps : List.Forall₂ (· = ·) (tokens.map (·.kind.withoutReturns))
      (tokens'.map (·.kind.withoutReturns)) :=
    List.forall₂_map_left_iff.2 (List.forall₂_map_right_iff.2 hkinds)
  rw [List.forall₂_eq_eq_eq] at hmaps
  exact hmaps.symm

/-- A comment, which takes the return at its end with it, and a literal over
two lines. -/
theorem ofSource_crlf_singleQuoted :
    let source := "# a\n\x27b\nc\x27"
    let tokens : List Token := [⟨.string "b\nc", ⟨4, 9⟩⟩, ⟨.endOfInput, ⟨9, 9⟩⟩]
    let tokens' : List Token := [⟨.string "b\r\nc", ⟨5, 11⟩⟩, ⟨.endOfInput, ⟨11, 11⟩⟩]
    '\r' ∉ source.toList ∧ ofSource source = .ok tokens
      ∧ ofSource (withReturns source) = .ok tokens'
      ∧ (∀ body, IsBody source.toList body → ¬ JoinsLines body)
      ∧ tokens'.map (·.kind.withoutReturns) = tokens.map (·.kind.withoutReturns) := by
  intro source tokens tokens'
  have hreturn : '\r' ∉ source.toList := by decide
  have htokens : ofSource source = .ok tokens := by
    have hscan : scan [] 0 "# a\n\x27b\nc\x27".toList = .ok [⟨.comment " a", ⟨0, 3⟩⟩,
        ⟨.string "b\nc", ⟨4, 9⟩⟩, ⟨.endOfInput, ⟨9, 9⟩⟩] :=
      scan_next [] rfl rfl rfl rfl rfl (scan_next ['\n'] rfl rfl rfl rfl rfl (scan_nil 9))
    rw [ofSource_eq_scan (by decide), hscan]
    rfl
  have htokens' : ofSource (withReturns source) = .ok tokens' := by
    have hscan : scan [] 0 "# a\r\n\x27b\r\nc\x27".toList = .ok [⟨.comment " a\r", ⟨0, 4⟩⟩,
        ⟨.string "b\r\nc", ⟨5, 11⟩⟩, ⟨.endOfInput, ⟨11, 11⟩⟩] :=
      scan_next [] rfl rfl rfl rfl rfl (scan_next ['\n'] rfl rfl rfl rfl rfl (scan_nil 11))
    have hbroken : crlf source.toList = "# a\r\n\x27b\r\nc\x27".toList := by decide
    rw [ofSource_eq_scan (by decide), toList_withReturns, hbroken, hscan]
    rfl
  have hnone : ∀ body, IsBody source.toList body → ¬ JoinsLines body := by
    rintro body ⟨before, position, gap, rest, after, hreaches, -⟩
    obtain ⟨passed, hsource, -⟩ := hreaches.exists_passed
    have hquote : '\x22' ∈ source.toList := by simp [hsource]
    exact absurd hquote (by decide)
  refine ⟨hreturn, htokens, htokens', hnone, ?_⟩
  exact ((ofSource_crlf hreturn).2 tokens tokens' htokens htokens').2 hnone

/-- Between double quotes, a backslash at the end of a line joins the lines
only if they end without returns. -/
theorem ofSource_joined_ne :
    let source := "\"a\\\nb\""
    let tokens : List Token := [⟨.string "ab", ⟨0, 6⟩⟩, ⟨.endOfInput, ⟨6, 6⟩⟩]
    let tokens' : List Token := [⟨.string "a\r\nb", ⟨0, 7⟩⟩, ⟨.endOfInput, ⟨7, 7⟩⟩]
    '\r' ∉ source.toList ∧ ofSource source = .ok tokens
      ∧ ofSource (withReturns source) = .ok tokens'
      ∧ tokens'.map (·.kind.withoutReturns) ≠ tokens.map (·.kind.withoutReturns) := by
  intro source tokens tokens'
  refine ⟨by decide, ?_, ?_, by decide⟩
  · have hps : ∀ p ∈ [Piece.plain 'a', .lineJoin, .plain 'b'], p.Valid := by simp [Piece.Valid]
    have hscan : scan [] 0 "\"a\\\nb\"".toList
        = .ok [⟨.string "ab", ⟨0, 6⟩⟩, ⟨.endOfInput, ⟨6, 6⟩⟩] := scan_pieces hps rfl rfl
    rw [ofSource_eq_scan (by decide), hscan]
    rfl
  · have hps : ∀ p ∈ [Piece.plain 'a', .escaped '\r', .plain '\n', .plain 'b'], p.Valid := by
      simp [Piece.Valid]
    have hscan : scan [] 0 "\"a\\\r\nb\"".toList
        = .ok [⟨.string "a\r\nb", ⟨0, 7⟩⟩, ⟨.endOfInput, ⟨7, 7⟩⟩] := scan_pieces hps rfl rfl
    have hbroken : crlf source.toList = "\"a\\\r\nb\"".toList := by decide
    rw [ofSource_eq_scan (by decide), toList_withReturns, hbroken, hscan]
    rfl

end UiScript.Token
