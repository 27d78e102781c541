/-
Returns in front of line breaks. A text may have a return before each of its
line breaks, and is taken apart at the same places as without them: what stops
at a line break stops at the return before it, a return may follow a marker as
a line break may, and it neither protects a quote nor is one.

What a literal stands for keeps the returns of its lines. Between single quotes
that is all. Between double quotes a backslash protects what follows it: in
front of a line break it joins the lines, and in front of a return it stands
for the return, so that the line break behind that is kept
(`withoutReturns_valueOf_crlf`).

# Main statements

* `takeWhile_crlf`, `dropWhile_crlf`, `Numeral.split_crlf`: what stops at a line
  break.
* `splitBody_crlf`, `splitCommentFrom_crlf`: literals and block comments end at
  the same places.
* `decodeSingle_crlf`, `decodeDouble_crlf`: what literals stand for.
-/
import UiScript.Proofs.Scanning.CodePoints
import UiScript.Proofs.Scanning.LineBreak

namespace UiScript.Token

open Text
open Lexeme (isSpace)

-- ====================================================================== texts

/-- The text with a return before each line break. -/
def crlf (cs : List Char) : List Char := cs.flatMap fun c => if c = '\n' then ['\r', '\n'] else [c]

/-- The text without returns. -/
def withoutReturns (cs : List Char) : List Char := cs.filter (· ≠ '\r')

@[simp] theorem crlf_nil : crlf [] = [] := rfl

/-- A line break gets a return in front. -/
theorem crlf_break (cs : List Char) : crlf ('\n' :: cs) = '\r' :: '\n' :: crlf cs := rfl

theorem crlf_cons {c : Char} (hc : c ≠ '\n') (cs : List Char) : crlf (c :: cs) = c :: crlf cs := by
  rw [crlf, List.flatMap_cons, if_neg hc]
  rfl

/-- Returns are put in part by part, for what a line break gets does not
depend on what is around. -/
theorem crlf_append (cs ds : List Char) : crlf (cs ++ ds) = crlf cs ++ crlf ds :=
  List.flatMap_append

/-- A text of one line has no place for a return. -/
theorem crlf_of_notMem {cs : List Char} (h : '\n' ∉ cs) : crlf cs = cs := by
  induction cs with
  | nil => rfl
  | cons c cs ih =>
    obtain ⟨hc, hcs⟩ := not_or.1 (mt List.mem_cons.2 h)
    rw [crlf_cons (Ne.symm hc), ih hcs]

theorem withoutReturns_append (cs ds : List Char) :
    withoutReturns (cs ++ ds) = withoutReturns cs ++ withoutReturns ds :=
  List.filter_append cs ds

/-- Returns make no difference where they are left out. -/
theorem withoutReturns_crlf (cs : List Char) : withoutReturns (crlf cs) = withoutReturns cs := by
  induction cs with
  | nil => rfl
  | cons c cs ih =>
    by_cases hc : c = '\n'
    · subst hc
      simpa [crlf_break, withoutReturns] using ih
    · rw [crlf_cons hc, ← List.singleton_append, withoutReturns_append, ih,
        ← withoutReturns_append, List.singleton_append]

/-- A text ends as it did: the returns stand in front of the line breaks. -/
theorem getLast?_crlf (cs : List Char) : (crlf cs).getLast? = cs.getLast? := by
  rcases List.eq_nil_or_concat cs with rfl | ⟨init, c, rfl⟩
  · rfl
  · rw [List.concat_eq_append]
    by_cases hc : c = '\n'
    · subst hc
      rw [crlf_append, crlf_break, crlf_nil]
      simp
    · rw [crlf_append, crlf_cons hc, crlf_nil]
      simp

section
variable {p : Char → Bool} (hp : p '\r' = p '\n')

include hp

/-- A test that does not tell a return from a line break takes the same part
of the text. -/
theorem takeWhile_crlf (cs : List Char) : (crlf cs).takeWhile p = crlf (cs.takeWhile p) := by
  induction cs with
  | nil => rfl
  | cons c cs ih =>
    by_cases hc : c = '\n'
    · subst hc
      rw [crlf_break, List.takeWhile_cons, List.takeWhile_cons, List.takeWhile_cons, hp, ih]
      cases p '\n' <;> rfl
    · rw [crlf_cons hc, List.takeWhile_cons, List.takeWhile_cons, ih]
      split
      · rw [crlf_cons hc]
      · rfl

/-- And it leaves the same rest. -/
theorem dropWhile_crlf (cs : List Char) : (crlf cs).dropWhile p = crlf (cs.dropWhile p) := by
  induction cs with
  | nil => rfl
  | cons c cs ih =>
    by_cases hc : c = '\n'
    · subst hc
      rw [crlf_break, List.dropWhile_cons, List.dropWhile_cons, List.dropWhile_cons, hp, ih]
      cases p '\n' <;> rfl
    · rw [crlf_cons hc, List.dropWhile_cons, List.dropWhile_cons, ih]
      split
      · rfl
      · rw [crlf_cons hc]

end

/-- Where both returns and line breaks stop, the text up to there has neither. -/
theorem takeWhile_crlf_of_stop {p : Char → Bool} (hbreak : p '\n' = false) (hreturn : p '\r' = false)
    (cs : List Char) : (crlf cs).takeWhile p = cs.takeWhile p := by
  rw [takeWhile_crlf (hreturn.trans hbreak.symm), crlf_of_notMem (not_mem_takeWhile hbreak cs)]

-- ================================================================= what is left

/-- The second text is the first one with returns, but perhaps for a return in
front. -/
def Spells (cs ds : List Char) : Prop := ds = crlf cs ∨ '\r' :: ds = crlf cs

theorem spells_crlf (cs : List Char) : Spells cs (crlf cs) := .inl rfl

/-- What stands behind the end of a line, without the return. -/
theorem spells_dropWhile (cs : List Char) :
    Spells (cs.dropWhile (· != '\n')) ((crlf cs).dropWhile (· != '\n')) := by
  induction cs with
  | nil => exact .inl rfl
  | cons c cs ih =>
    by_cases hc : c = '\n'
    · subst hc
      exact .inr rfl
    · rw [crlf_cons hc, List.dropWhile_cons, List.dropWhile_cons, if_pos (by simpa using hc),
        if_pos (by simpa using hc)]
      exact ih

section
variable {cs ds : List Char} (h : Spells cs ds)

include h

/-- Behind the spaces, the texts are the same but for returns. -/
theorem Spells.dropWhile_isSpace : ds.dropWhile isSpace = crlf (cs.dropWhile isSpace) := by
  rw [← dropWhile_crlf rfl]
  rcases h with rfl | h
  · rfl
  · rw [← h]
    rfl

/-- A line begins behind the spaces in both texts or in neither. -/
theorem Spells.beginsLine_eq (hcs : '\r' ∉ cs) {position position' : Nat}
    (hposition : position' = 0 ↔ position = 0) :
    beginsLine position' (ds.takeWhile isSpace) = beginsLine position (cs.takeWhile isSpace) := by
  have hlast : (ds.takeWhile isSpace).getLast? = (cs.takeWhile isSpace).getLast? := by
    rw [← getLast?_crlf (cs.takeWhile isSpace), ← takeWhile_crlf (p := isSpace) rfl]
    rcases h with rfl | h
    · rfl
    · rw [← h]
      -- the return in front is that of a line break, which is the first of the spaces
      cases cs with
      | nil => cases h
      | cons c cs =>
        by_cases hc : c = '\n'
        · subst hc
          obtain rfl := (List.cons.inj h).2
          simp [isSpace]
        · rw [crlf_cons hc] at h
          obtain rfl := (List.cons.inj h).1
          exact absurd List.mem_cons_self hcs
  unfold beginsLine
  rw [hlast]
  cases (cs.takeWhile isSpace).getLast? with
  | none => simpa using hposition
  | some c => rfl

end

-- ===================================================================== numerals

/-- A numeral stops before a return as it does before a line break. -/
theorem Numeral.split_crlf (cs : List Char) :
    Numeral.split (crlf cs) = ((Numeral.split cs).1, crlf (Numeral.split cs).2) := by
  by_cases hbreak : '\n' ∈ cs
  · obtain ⟨line, more, rfl, hline⟩ := List.eq_append_cons_of_mem hbreak
    have hrest : '\n' ∉ (Numeral.split line).2 := by
      rw [← Numeral.split_eq line] at hline
      exact fun h => hline (List.mem_append_right _ h)
    rw [crlf_append, crlf_break, crlf_of_notMem hline, Numeral.split_append rfl,
      Numeral.split_append rfl, crlf_append, crlf_break, crlf_of_notMem hrest]
  · have hrest : '\n' ∉ (Numeral.split cs).2 := by
      rw [← Numeral.split_eq cs] at hbreak
      exact fun h => hbreak (List.mem_append_right _ h)
    rw [crlf_of_notMem hbreak, crlf_of_notMem hrest]

-- =========================================================== string literals

namespace StringLiteral

/-- A character that neither protects nor closes is part of the body. -/
theorem splitBodyFrom_plain {quote c : Char} (hc : c ≠ '\\') (hquote : c ≠ quote)
    (body cs : List Char) :
    splitBodyFrom quote body (c :: cs) = splitBodyFrom quote (c :: body) cs := by
  cases cs with
  | nil => simp [splitBodyFrom, hquote]
  | cons d cs => rw [splitBodyFrom, if_neg hc, if_neg hquote]

/-- A backslash and what it protects are passed together. -/
theorem splitBodyFrom_slash (quote d : Char) (body cs : List Char) :
    splitBodyFrom quote body ('\\' :: d :: cs) = splitBodyFrom quote (d :: '\\' :: body) cs := by
  rw [splitBodyFrom, if_pos rfl]

/-- A quote that nothing protects ends the body. -/
theorem splitBodyFrom_quote {quote : Char} (hquote : quote ≠ '\\') (body cs : List Char) :
    splitBodyFrom quote body (quote :: cs) = some (body.reverse, cs) := by
  cases cs with
  | nil => simp [splitBodyFrom]
  | cons d cs => rw [splitBodyFrom, if_neg hquote, if_pos rfl]

/-- What has been read is spelled alike with one more character. -/
theorem reverse_cons_crlf {c : Char} (hc : c ≠ '\n') {body body' : List Char}
    (hbody : body'.reverse = crlf body.reverse) :
    (c :: body').reverse = crlf (c :: body).reverse := by
  rw [List.reverse_cons, List.reverse_cons, crlf_append, hbody, crlf_cons hc, crlf_nil]

/-- What has been read is spelled alike with one more line break. -/
theorem reverse_break_crlf {body body' : List Char} (hbody : body'.reverse = crlf body.reverse) :
    ('\n' :: '\r' :: body').reverse = crlf ('\n' :: body).reverse := by
  rw [List.reverse_cons, List.reverse_cons, List.reverse_cons, crlf_append, hbody, crlf_break,
    crlf_nil, List.append_assoc]
  rfl

/-- A return protects nothing and closes nothing, protected or not. -/
theorem splitBodyFrom_crlf {quote : Char} (hslash : quote ≠ '\\') (hbreak : quote ≠ '\n')
    (hreturn : quote ≠ '\r') {body body' : List Char} (hbody : body'.reverse = crlf body.reverse)
    (cs : List Char) :
    splitBodyFrom quote body' (crlf cs)
      = (splitBodyFrom quote body cs).map fun found => (crlf found.1, crlf found.2) := by
  -- neither character of a line break with a return is a quote or a backslash
  have hplain : ∀ done more : List Char, splitBodyFrom quote done ('\r' :: '\n' :: more)
      = splitBodyFrom quote ('\n' :: '\r' :: done) more := by
    intro done more
    rw [splitBodyFrom_plain (by decide) hreturn.symm, splitBodyFrom_plain (by decide) hbreak.symm]
  fun_induction splitBodyFrom quote body cs generalizing body' with
  | case1 => rfl
  | case2 body =>
    rw [crlf_cons hbreak, crlf_nil, splitBodyFrom_quote hslash, hbody]
    rfl
  | case3 body c hc =>
    by_cases hline : c = '\n'
    · rw [hline, crlf_break, hplain]
      rfl
    · rw [crlf_cons hline, crlf_nil, splitBodyFrom, if_neg hc]
      rfl
  -- a backslash protects a line break here and a return there; the break behind that is plain
  | case4 body d cs ih =>
    by_cases hd : d = '\n'
    · subst hd
      rw [crlf_cons (by decide), crlf_break, splitBodyFrom_slash,
        splitBodyFrom_plain (by decide) hbreak.symm]
      exact ih (reverse_break_crlf (reverse_cons_crlf (by decide) hbody))
    · rw [crlf_cons (by decide), crlf_cons hd, splitBodyFrom_slash]
      exact ih (reverse_cons_crlf hd (reverse_cons_crlf (by decide) hbody))
  | case5 body d cs =>
    rw [crlf_cons hbreak, splitBodyFrom_quote hslash, hbody]
    rfl
  | case6 body c d cs hc hquote ih =>
    by_cases hline : c = '\n'
    · subst hline
      rw [crlf_break, hplain]
      exact ih (reverse_break_crlf hbody)
    · rw [crlf_cons hline, splitBodyFrom_plain hc hquote]
      exact ih (reverse_cons_crlf hline hbody)

/-- A literal ends at the same place. A backslash in front of a line break
protects the return instead, and that is as little a quote. -/
theorem splitBody_crlf {quote : Char} (hquote : IsQuote quote) (cs : List Char) :
    splitBody quote (crlf cs)
      = (splitBody quote cs).map fun found => (crlf found.1, crlf found.2) := by
  obtain rfl | rfl := hquote
  · exact splitBodyFrom_crlf (by decide) (by decide) (by decide) rfl cs
  · exact splitBodyFrom_crlf (by decide) (by decide) (by decide) rfl cs

-- ============================================================== single quotes

/-- A character that protects nothing stands for itself. -/
theorem decodeSingleFrom_plain {c : Char} (hc : c ≠ '\\') (done cs : List Char) :
    decodeSingleFrom done (c :: cs) = decodeSingleFrom (c :: done) cs := by
  cases cs with
  | nil => rfl
  | cons d cs => rw [decodeSingleFrom, if_neg fun h => hc h.1]

/-- Between single quotes, returns are kept as line breaks are. -/
theorem decodeSingleFrom_crlf {done done' : List Char} (hdone : done'.reverse = crlf done.reverse)
    (cs : List Char) : decodeSingleFrom done' (crlf cs) = crlf (decodeSingleFrom done cs) := by
  have hplain : ∀ done more : List Char, decodeSingleFrom done ('\r' :: '\n' :: more)
      = decodeSingleFrom ('\n' :: '\r' :: done) more := by
    intro done more
    rw [decodeSingleFrom_plain (by decide), decodeSingleFrom_plain (by decide)]
  fun_induction decodeSingleFrom done cs generalizing done' with
  | case1 => exact hdone
  | case2 done c =>
    by_cases hline : c = '\n'
    · rw [hline, crlf_break, hplain]
      exact reverse_break_crlf hdone
    · rw [crlf_cons hline]
      exact reverse_cons_crlf hline hdone
  -- a protected character is a quote or a backslash, so no line break
  | case3 done c d cs h ih =>
    have hd : d ≠ '\n' := by
      rintro rfl
      exact absurd h.2 (by decide)
    rw [h.1, crlf_cons (by decide), crlf_cons hd, decodeSingleFrom, if_pos ⟨rfl, h.2⟩]
    exact ih (reverse_cons_crlf hd hdone)
  -- every other character stands for itself, with its return if it is a line break
  | case4 done c d cs h ih =>
    by_cases hline : c = '\n'
    · subst hline
      rw [crlf_break, hplain]
      exact ih (reverse_break_crlf hdone)
    · refine Eq.trans ?_ (ih (reverse_cons_crlf hline hdone))
      by_cases hd : d = '\n'
      · rw [hd, crlf_cons hline, crlf_break, decodeSingleFrom, if_neg]
        rintro ⟨-, hprotected⟩
        exact absurd hprotected (by decide)
      · rw [crlf_cons hline, crlf_cons hd, decodeSingleFrom, if_neg h]

/-- Between single quotes a backslash is one only before a quote or a
backslash, and a return is neither. So the value has the returns that the text
has. -/
theorem decodeSingle_crlf (body : List Char) :
    decodeSingle (crlf body) = crlf (decodeSingle body) :=
  decodeSingleFrom_crlf rfl body

-- ============================================================== double quotes

/-- The pieces that a piece is with returns before its line breaks. -/
def Piece.crlf : Piece → List Piece
  | .plain c => if c = '\n' then [.plain '\r', .plain '\n'] else [.plain c]
  | .lineJoin => [.escaped '\r', .plain '\n']
  | .escaped c => [.escaped c]
  | .codePoint digits e => [.codePoint digits e]

/-- What a piece stands for if lines are not joined. -/
def Piece.kept : Piece → List Char
  | .lineJoin => ['\n']
  | p => p.value

/-- What is no hexadecimal digit is not among the digits of a code point, nor
is a line break. -/
theorem Names.notMem_digits {digits : List Char} {e c : Char} (h : Names digits e)
    (hc : hexValue? c = none) : c ∉ digits := by
  obtain ⟨-, -, values, hvalues, -⟩ := h
  induction hvalues with
  | nil => exact List.not_mem_nil
  | cons hdigit _ ih =>
    intro hmem
    rcases List.mem_cons.1 hmem with rfl | hmem
    · rw [hexValue?_eq_some_iff.2 hdigit] at hc
      cases hc
    · exact ih hmem

/-- A valid piece gives valid pieces. A line join falls into two of them. -/
theorem Piece.crlf_valid {p : Piece} (hp : p.Valid) : ∀ q ∈ p.crlf, q.Valid := by
  cases p with
  | plain c =>
    rw [Piece.crlf]
    split
    · simp [Piece.Valid]
    · simpa [Piece.Valid] using hp
  | lineJoin => simp [Piece.crlf, Piece.Valid]
  | escaped c => simpa [Piece.crlf] using hp
  | codePoint digits e => simpa [Piece.crlf] using hp

/-- The pieces that a piece gives are written as the piece with its returns. -/
theorem Piece.textOf_crlf {p : Piece} (hp : p.Valid) : textOf p.crlf = Token.crlf p.text := by
  cases p with
  | plain c =>
    rw [Piece.crlf]
    split
    · next hc => rw [hc]; rfl
    · next hc => rw [Piece.text, crlf_cons hc]; rfl
  | lineJoin => rfl
  | escaped c =>
    rw [Piece.text, crlf_cons (by decide), crlf_cons hp.1]
    rfl
  | codePoint digits e =>
    have hdigits : '\n' ∉ digits := Names.notMem_digits hp rfl
    have htext : '\n' ∉ (Piece.codePoint digits e).text := by simp [Piece.text, hdigits]
    rw [crlf_of_notMem htext]
    exact List.append_nil _

/-- Pieces with returns are pieces again; their joins are protected returns
and line breaks. -/
theorem textOf_crlf {ps : List Piece} (hps : ∀ p ∈ ps, p.Valid) :
    textOf (ps.flatMap Piece.crlf) = Token.crlf (textOf ps) := by
  induction ps with
  | nil => rfl
  | cons p ps ih =>
    obtain ⟨hp, hps⟩ := List.forall_mem_cons.1 hps
    rw [List.flatMap_cons, textOf_cons, crlf_append, ← ih hps, ← Piece.textOf_crlf hp]
    exact List.flatMap_append

/-- But for returns, a piece stands for the same with returns, and a join for
its line break. -/
theorem Piece.withoutReturns_crlf (p : Piece) :
    withoutReturns (valueOf p.crlf) = withoutReturns p.kept := by
  cases p with
  | plain c =>
    rw [Piece.crlf]
    split
    · next hc => rw [hc]; rfl
    · rfl
  | lineJoin => rfl
  | escaped c => rfl
  | codePoint digits e => rfl

/-- What the pieces with returns stand for is what they stood for without, but
for the returns and for the lines that are no longer joined. -/
theorem withoutReturns_valueOf_crlf (ps : List Piece) :
    withoutReturns (valueOf (ps.flatMap Piece.crlf)) = withoutReturns (ps.flatMap Piece.kept) := by
  induction ps with
  | nil => rfl
  | cons p ps ih =>
    have happend : valueOf (p.crlf ++ ps.flatMap Piece.crlf)
        = valueOf p.crlf ++ valueOf (ps.flatMap Piece.crlf) := List.flatMap_append
    rw [List.flatMap_cons, List.flatMap_cons, happend, withoutReturns_append,
      withoutReturns_append, p.withoutReturns_crlf, ih]

/-- Without joins, pieces stand for what they stand for anyway. -/
theorem flatMap_kept {ps : List Piece} (h : .lineJoin ∉ ps) : ps.flatMap Piece.kept = valueOf ps := by
  induction ps with
  | nil => rfl
  | cons p ps ih =>
    obtain ⟨hp, hps⟩ := not_or.1 (mt List.mem_cons.2 h)
    have hkept : p.kept = p.value := by
      cases p with
      | lineJoin => exact absurd rfl hp
      | _ => rfl
    rw [List.flatMap_cons, valueOf_cons, ih hps, hkept]

/-- What stands in front of a text with returns, without a return in it,
stands in front of the text. -/
theorem exists_of_crlf_eq_append {cs front rest : List Char} (hreturn : '\r' ∉ front)
    (h : crlf cs = front ++ rest) : ∃ more, cs = front ++ more ∧ rest = crlf more := by
  induction front generalizing cs with
  | nil => exact ⟨cs, rfl, h.symm⟩
  | cons f front ih =>
    obtain ⟨hf, hfront⟩ := not_or.1 (mt List.mem_cons.2 hreturn)
    cases cs with
    | nil => cases h
    | cons c cs =>
      by_cases hc : c = '\n'
      · subst hc
        exact absurd (List.cons.inj h).1 hf
      · rw [crlf_cons hc] at h
        obtain ⟨rfl, htail⟩ := List.cons.inj h
        obtain ⟨more, rfl, hrest⟩ := ih hfront htail
        exact ⟨more, rfl, hrest⟩

/-- With returns, what names no code point still names none. -/
theorem startsCodePoint_of_crlf {cs : List Char} (h : StartsCodePoint (crlf cs)) :
    StartsCodePoint cs := by
  obtain ⟨digits, e, rest, hcs, hnames⟩ := h
  have hreturn : '\r' ∉ '{' :: (digits ++ ['}']) := by
    have := hnames.notMem_digits (c := '\r') rfl
    simp [this]
  have hfront : crlf cs = ('{' :: (digits ++ ['}'])) ++ rest := by rw [hcs]; simp
  obtain ⟨more, rfl, -⟩ := exists_of_crlf_eq_append hreturn hfront
  exact ⟨digits, e, more, by simp, hnames⟩

/-- With returns, a body stands for what its pieces stand for if lines are not
joined, but for the returns; or it has a faulty code point in either way. -/
theorem decodeDouble_crlf {body : List Char} (h : Paired body) :
    (∃ ps value, (∀ p ∈ ps, p.Valid) ∧ body = textOf ps ∧ decodeDouble body = .ok (valueOf ps)
        ∧ decodeDouble (crlf body) = .ok value
        ∧ withoutReturns value = withoutReturns (ps.flatMap Piece.kept))
      ∨ ∃ e e', decodeDouble body = .error e ∧ decodeDouble (crlf body) = .error e' := by
  obtain ⟨ps, hps, hbody⟩ := exists_pieces h
  have hcrlf : ∀ q ∈ ps.flatMap Piece.crlf, q.Valid := by
    intro q hq
    obtain ⟨p, hp, hq⟩ := List.mem_flatMap.1 hq
    exact Piece.crlf_valid (hps p hp) q hq
  obtain rfl | ⟨tail, rfl, htail⟩ := hbody
  · refine .inl ⟨ps, _, hps, rfl, decodeDouble_pieces hps, ?_, withoutReturns_valueOf_crlf ps⟩
    rw [← textOf_crlf hps, decodeDouble_pieces hcrlf]
  · have htail' := mt startsCodePoint_of_crlf htail
    obtain ⟨faulty, _, -, -, herror⟩ := decodeDouble_faulty hps htail
    obtain ⟨faulty', _, -, -, herror'⟩ := decodeDouble_faulty hcrlf htail'
    rw [textOf_crlf hps, ← crlf_cons (by decide), ← crlf_cons (by decide), ← crlf_append]
      at herror'
    exact .inr ⟨_, _, herror, herror'⟩

end StringLiteral

-- ============================================================ block comments

namespace Lexeme

/-- A return ends what a line break ends, also a marker. -/
theorem isMarked_crlf {marker : List Char} (hbreak : '\n' ∉ marker) (hreturn : '\r' ∉ marker)
    (cs : List Char) : isMarked marker (crlf cs) = isMarked marker cs := by
  have hstarts : marker.isPrefixOf (crlf cs) = marker.isPrefixOf cs := by
    rw [Bool.eq_iff_iff, List.isPrefixOf_iff_prefix, List.isPrefixOf_iff_prefix]
    constructor
    · rintro ⟨rest, hrest⟩
      obtain ⟨more, rfl, -⟩ := StringLiteral.exists_of_crlf_eq_append hreturn hrest.symm
      exact List.prefix_append _ _
    · rintro ⟨more, rfl⟩
      rw [crlf_append, crlf_of_notMem hbreak]
      exact List.prefix_append _ _
  unfold isMarked
  rw [hstarts]
  cases hmarker : marker.isPrefixOf cs with
  | false => rfl
  | true =>
    obtain ⟨more, rfl⟩ := List.isPrefixOf_iff_prefix.1 hmarker
    rw [crlf_append, crlf_of_notMem hbreak, List.drop_left, List.drop_left]
    cases more with
    | nil => rfl
    | cons c more =>
      by_cases hc : c = '\n'
      · subst hc
        rfl
      · rw [crlf_cons hc]
        rfl

/-- A return is passed like any character: it starts no closing marker. -/
theorem splitCommentFrom_return (passed cs : List Char) :
    splitCommentFrom passed ('\r' :: cs) = splitCommentFrom ('\r' :: passed) cs := by
  rw [splitCommentFrom, if_neg (by simp)]

/-- What has been passed does not decide where a block comment ends. -/
theorem snd_splitCommentFrom (passed passed' cs : List Char) :
    (splitCommentFrom passed' cs).map Prod.snd = (splitCommentFrom passed cs).map Prod.snd := by
  fun_induction splitCommentFrom passed cs generalizing passed' with
  | case1 => rfl
  | case2 passed c cs h =>
    rw [splitCommentFrom, if_pos h]
    rfl
  | case3 passed c cs h ih =>
    rw [splitCommentFrom, if_neg h]
    exact ih _

/-- A block comment ends at the same line. What the comment says is not
compared: nothing depends on it. -/
theorem splitCommentFrom_crlf (passed cs : List Char) :
    (splitCommentFrom passed (crlf cs)).map Prod.snd
      = (splitCommentFrom passed cs).map fun found => crlf found.2 := by
  have hclosing : ∀ cs, isMarked closingMarker (crlf cs) = isMarked closingMarker cs :=
    isMarked_crlf (by decide) (by decide)
  fun_induction splitCommentFrom passed cs with
  | case1 => rfl
  | case2 passed c cs h =>
    simp only [Bool.and_eq_true, decide_eq_true_eq] at h
    rw [h.1, crlf_break, splitCommentFrom_return, splitCommentFrom, hclosing, h.2]
    rfl
  | case3 passed c cs h ih =>
    by_cases hc : c = '\n'
    · subst hc
      rw [crlf_break, splitCommentFrom_return, splitCommentFrom, hclosing, if_neg h,
        snd_splitCommentFrom ('\n' :: passed)]
      exact ih
    · rw [crlf_cons hc, splitCommentFrom, if_neg (by simp [hc])]
      exact ih

/-- From a point where a return may be missing in front, a block comment
leaves the same rest. -/
theorem splitCommentFrom_of_spells {cs ds : List Char} (h : Spells cs ds) :
    (splitCommentFrom [] ds).map Prod.snd
      = (splitCommentFrom [] cs).map fun found => crlf found.2 := by
  rw [← splitCommentFrom_crlf]
  rcases h with rfl | h
  · rfl
  · rw [← h, splitCommentFrom_return]
    exact snd_splitCommentFrom _ _ ds

end Lexeme

end UiScript.Token
