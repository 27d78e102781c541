/-
Nothing stands outside the source. The tokens of a text, and the error if it
has none, have spans that fit the text: they start and stop between
characters of it. A source that fits into the offsets is therefore scanned
without any of them being held at the limit.

A lexical error stands where its lexeme starts, but for a faulty code point,
which is found by an offset into the body of its literal; that is why what
is passed on the way to it is kept, and not only how much that is.

# Main statements

* `ofChars_error_fits`: a lexical error fits the text.
* `scan_fits`: so do all tokens.
* `ofSource_eq_scan`, `ofSourceKeeping_eq_scan`: within the limit of offsets,
  scanning is all there is.
* `ofSource_fits`: what is said of a whole source.
-/
import UiScript.Proofs.Scanning.Forms
import UiScript.Proofs.Scanning.Places
import UiScript.Proofs.Scanning.Steps

namespace UiScript

open Text

namespace Token

open Lexeme (isSpace)

-- ================================================================ code points

/-- Hexadecimal digits are characters of one byte. -/
theorem utf8Size_of_hexValue {c : Char} {digit : Nat}
    (h : StringLiteral.hexValue? c = some digit) : c.utf8Size = 1 := by
  have hascii : c.val ≤ 127 := by
    unfold StringLiteral.hexValue? at h
    simp only [Char.le_def] at h
    split at h
    · next hc => exact UInt32.le_trans hc.2 (by decide)
    split at h
    · next hc => exact UInt32.le_trans hc.2 (by decide)
    split at h
    · next hc => exact UInt32.le_trans hc.2 (by decide)
    · cases h
  unfold Char.utf8Size
  exact if_pos hascii

/-- A fault among the digits is reported where characters have been passed. -/
theorem readDigits_error {value count bytes n : Nat} {cs : List Char}
    (h : StringLiteral.readDigits value count bytes cs = .error n) :
    ∃ passed rest, cs = passed ++ rest ∧ n = bytes + width passed := by
  fun_induction StringLiteral.readDigits value count bytes cs with
  | case1 =>
    cases h
    exact ⟨[], [], rfl, rfl⟩
  | case3 => cases h
  | case5 value count bytes c cs =>
    cases h
    exact ⟨[c], cs, rfl, by simp⟩
  | case7 value count bytes c cs _ digit hdigit _ ih =>
    obtain ⟨passed, rest, rfl, rfl⟩ := ih h
    refine ⟨c :: passed, rest, rfl, ?_⟩
    rw [width_cons, utf8Size_of_hexValue hdigit, Nat.add_assoc]
  | case2 value bytes cs | case4 value count bytes cs =>
    cases h
    exact ⟨['\x7d'], cs, rfl, rfl⟩
  | case6 value count bytes c cs _ digit hdigit =>
    cases h
    refine ⟨[c], cs, rfl, ?_⟩
    rw [width_cons, utf8Size_of_hexValue hdigit, width_nil]

/-- Digits that are read are passed, with the brace that closes them, and
counted by their bytes. -/
theorem readDigits_ok {value count bytes n : Nat} {cs rest : List Char} {d : Char}
    (h : StringLiteral.readDigits value count bytes cs = .ok (d, n, rest)) :
    ∃ passed, cs = passed ++ rest ∧ n = bytes + width passed := by
  fun_induction StringLiteral.readDigits value count bytes cs with
  | case3 value count bytes cs =>
    cases h
    exact ⟨['\x7d'], rfl, rfl⟩
  | case7 value count bytes c cs _ digit hdigit _ ih =>
    obtain ⟨passed, rfl, rfl⟩ := ih h
    refine ⟨c :: passed, rfl, ?_⟩
    rw [width_cons, utf8Size_of_hexValue hdigit, Nat.add_assoc]
  | case1 | case2 | case4 | case5 | case6 => cases h

/-- A faulty code point is found behind characters that were passed, so its
offset is between characters. -/
theorem readCodePoint_error {cs : List Char} {n : Nat}
    (h : StringLiteral.readCodePoint cs = .error n) :
    ∃ passed rest, cs = passed ++ rest ∧ n = width passed := by
  cases cs with
  | nil =>
    cases h
    exact ⟨[], [], rfl, rfl⟩
  | cons c cs =>
    rw [StringLiteral.readCodePoint] at h
    split at h
    · next hc =>
      obtain ⟨passed, rest, rfl, rfl⟩ := readDigits_error h
      exact ⟨c :: passed, rest, rfl, by rw [width_cons, hc]; rfl⟩
    · cases h
      exact ⟨[], c :: cs, rfl, rfl⟩

/-- A code point that is read passes what it is written with. -/
theorem readCodePoint_ok {cs rest : List Char} {n : Nat} {d : Char}
    (h : StringLiteral.readCodePoint cs = .ok (d, n, rest)) :
    ∃ passed, cs = passed ++ rest ∧ n = width passed := by
  cases cs with
  | nil => cases h
  | cons c cs =>
    rw [StringLiteral.readCodePoint] at h
    split at h
    · next hc =>
      obtain ⟨passed, rfl, rfl⟩ := readDigits_ok h
      exact ⟨c :: passed, rfl, by rw [width_cons, hc]; rfl⟩
    · cases h

/-- A span that fits what is left of a body, behind some of its characters. -/
theorem fits_behind {passed cs : List Char} {offset distance : Nat} {found : Span}
    (hpassed : width passed = distance)
    (h : ∃ s : Span, s.Fits cs ∧ s.shift (offset + distance) = found) :
    ∃ s : Span, s.Fits (passed ++ cs) ∧ s.shift offset = found := by
  obtain ⟨s, hs, rfl⟩ := h
  refine ⟨s.shift (width passed), hs.prepend passed, ?_⟩
  rw [hpassed]
  unfold Span.shift
  simp only [Nat.add_assoc]

/-- A faulty code point has a span that fits the body. -/
theorem decodeDoubleFrom_error {offset start stop : Nat} {done cs : List Char}
    (h : StringLiteral.decodeDoubleFrom offset done cs = .error (start, stop)) :
    ∃ s : Span, s.Fits cs ∧ s.shift offset = ⟨start, stop⟩ := by
  have hslash : ('\\').utf8Size = 1 := rfl
  have hletter : ('u').utf8Size = 1 := rfl
  fun_induction StringLiteral.decodeDoubleFrom offset done cs with
  | case1 => cases h
  | case2 => cases h
  | case3 offset done cs ih =>
    have hpassed : width ['\\', '\n'] = 2 := rfl
    exact fits_behind hpassed (ih h)
  -- the faulty code point: its backslash is here, and its end is behind characters that were
  -- passed
  | case4 offset done cs bytes hbytes _ =>
    cases h
    obtain ⟨passed, rest, rfl, rfl⟩ := readCodePoint_error hbytes
    refine ⟨_, Span.Fits.piece [] ('\\' :: 'u' :: passed) rest, ?_⟩
    simp only [Span.shift, width_nil, width_cons, hslash, hletter, Span.mk.injEq]
    omega
  | case5 offset done cs e bytes rest hbytes _ _ ih =>
    obtain ⟨passed, rfl, rfl⟩ := readCodePoint_ok hbytes
    have hpassed : width ('\\' :: 'u' :: passed) = 2 + width passed := by
      rw [width_cons, width_cons, hslash, hletter]
      omega
    refine fits_behind hpassed ?_
    rw [← Nat.add_assoc]
    exact ih h
  | case6 offset done d cs _ _ ih =>
    have hpassed : width ['\\', d] = 1 + d.utf8Size := by
      rw [width_cons, width_cons, width_nil, hslash, Nat.add_zero]
    refine fits_behind hpassed ?_
    rw [← Nat.add_assoc]
    exact ih h
  | case7 offset done c d cs _ ih =>
    have hpassed : width [c] = c.utf8Size := by rw [width_cons, width_nil, Nat.add_zero]
    exact fits_behind hpassed (ih h)

/-- A lexical error fits the text. It starts at the lexeme, or inside of a
literal where a code point does. -/
theorem ofChars_error_fits {atLineStart : Bool} {c : Char} {cs : List Char} {e : LexicalError}
    (h : Lexeme.ofChars atLineStart c cs = .error e) : e.span.Fits (c :: cs) := by
  have hstarts := Lexeme.formOf_starts atLineStart c cs
  rw [Lexeme.ofChars_eq] at h
  cases hform : Lexeme.formOf atLineStart c cs with
  | blockComment =>
    rw [hform, Lexeme.Form.read, Lexeme.blockComment] at h
    split at h <;> cases h
    exact .whole (c :: cs)
  | doubleQuoted =>
    rw [hform] at hstarts
    obtain rfl : c = '\x22' := hstarts
    rw [hform, Lexeme.Form.read, Lexeme.doubleQuoted] at h
    split at h
    · cases h
      exact .whole ('\x22' :: cs)
    · next body rest hsplit =>
      split at h
      · next start stop hdecode =>
        cases h
        -- a faulty code point lies inside of the body, behind the opening quote
        obtain ⟨s, hs, hspan⟩ := decodeDoubleFrom_error hdecode
        obtain rfl : s = ⟨start, stop⟩ := by
          rw [← hspan]
          simp [Span.shift]
        rw [StringLiteral.splitBody_eq hsplit]
        exact (hs.append ('\x22' :: rest)).prepend ['\x22']
      · cases h
  | singleQuoted =>
    rw [hform] at hstarts
    obtain rfl : c = '\x27' := hstarts
    rw [hform, Lexeme.Form.read, Lexeme.singleQuoted] at h
    split at h <;> cases h
    exact .whole ('\x27' :: cs)
  -- no other form fails
  | _ =>
    rw [hform] at h
    cases h

-- ======================================================================== scans

/-- A span fits a text that starts at the byte `position`. -/
def FitsFrom (position : Nat) (cs : List Char) (s : Span) : Prop :=
  ∃ t : Span, t.Fits cs ∧ s = t.shift position

/-- A span that fits the rest of a text fits the text. -/
theorem FitsFrom.prepend {position : Nat} {cs : List Char} {s : Span} (passed : List Char)
    (h : FitsFrom (position + width passed) cs s) : FitsFrom position (passed ++ cs) s := by
  obtain ⟨t, ht, rfl⟩ := h
  obtain ⟨u, hu, hshift⟩ := fits_behind rfl ⟨t, ht, rfl⟩
  exact ⟨u, hu, hshift.symm⟩

/-- The tokens of a text fit the text, and so does the error if there is one.
The induction is on the text that is left, and the position is carried along. -/
theorem scan_fits (position : Nat) (cs : List Char) :
    match scan [] position cs with
    | .ok tokens => ∀ t ∈ tokens, FitsFrom position cs t.span
    | .error e => FitsFrom position cs e.span := by
  induction hn : cs.length using Nat.strongRecOn generalizing position cs with
  | ind n ih =>
    have hcs := List.takeWhile_append_dropWhile (p := isSpace) (l := cs)
    rw [scan_step]
    dsimp only
    cases hb : cs.dropWhile isSpace with
    | nil =>
      rw [hb, List.append_nil] at hcs
      intro t ht
      rw [List.mem_singleton.1 ht, hcs]
      have hend := Span.Fits.piece cs [] []
      rw [List.append_nil, List.append_nil] at hend
      exact ⟨_, hend, rfl⟩
    | cons c rest =>
      rw [hb] at hcs
      dsimp only
      cases hx : Lexeme.ofChars (beginsLine position (cs.takeWhile isSpace)) c rest with
      | error e =>
        have hbody : FitsFrom (position + width (cs.takeWhile isSpace)) (c :: rest)
            (e.shift (position + width (cs.takeWhile isSpace))).span :=
          ⟨e.span, ofChars_error_fits hx, rfl⟩
        have hwhole := hbody.prepend
        rwa [hcs] at hwhole
      | ok x =>
        have hlt := rest_length_lt_of_body hb hx
        have htext := Lexeme.text_append_rest hx
        have hrest := ih _ (hn ▸ hlt)
          (position + width (cs.takeWhile isSpace) + width x.text) x.rest rfl
        -- what fits the rest fits the text, behind the spaces and the lexeme
        have hbehind : ∀ s, FitsFrom (position + width (cs.takeWhile isSpace) + width x.text)
            x.rest s → FitsFrom position cs s := by
          intro s hs
          have hwhole := hs.prepend.prepend
          rwa [htext, hcs] at hwhole
        dsimp only
        cases hscan : scan [] (position + width (cs.takeWhile isSpace) + width x.text) x.rest with
        | error e =>
          rw [hscan] at hrest
          exact hbehind _ hrest
        | ok ts =>
          rw [hscan] at hrest
          intro t ht
          rcases List.mem_cons.1 ht with rfl | ht
          · have hthis := Span.Fits.piece (cs.takeWhile isSpace) x.text x.rest
            rw [htext, hcs] at hthis
            refine ⟨_, hthis, ?_⟩
            unfold Span.shift
            rw [Nat.add_assoc]
          · exact hbehind _ (hrest t ht)

-- ================================================================== whole sources

/-- A span that fits from the beginning fits. -/
theorem FitsFrom.fits {cs : List Char} {s : Span} (h : FitsFrom 0 cs s) : s.Fits cs := by
  obtain ⟨t, ht, rfl⟩ := h
  have hzero : t.shift 0 = t := by simp [Span.shift]
  rwa [hzero]

/-- Within the limit of offsets, the tokens of a source are what is scanned. -/
theorem ofSourceWithComments_eq_scan {source : String}
    (h : width source.toList ≤ Span.maxOffset) :
    ofSourceWithComments source = scan [] 0 source.toList := by
  have hfits := scan_fits 0 source.toList
  unfold ofSourceWithComments ofSourceKeeping
  rw [← scan]
  split
  · next e he =>
    rw [he] at hfits ⊢
    rw [LexicalError.saturate, (FitsFrom.fits hfits).saturate_eq h]
  · next ts hts =>
    rw [hts] at hfits ⊢
    congr 1
    refine (List.map_congr_left fun t ht => ?_).trans ts.map_id
    rw [saturate, (hfits t ht).fits.saturate_eq h]
    rfl

/-- Within the limit of offsets no span is held at it, so the tokens are those
of the scan, without the comments. -/
theorem ofSource_eq_scan {source : String} (h : width source.toList ≤ Span.maxOffset) :
    ofSource source = (scan [] 0 source.toList).map (List.filter fun t => !t.isComment) := by
  rw [ofSource_eq_map, ofSourceWithComments_eq_scan h]

/-- Within the limit of offsets, the tokens that are kept are those of a scan. -/
theorem ofSourceKeeping_eq_scan {source : String} (comments : Bool)
    (h : width source.toList ≤ Span.maxOffset) :
    ofSourceKeeping comments source
      = (scan [] 0 source.toList).map (List.filter (isKept comments)) := by
  cases comments with
  | false => exact ofSource_eq_scan h
  | true =>
    have hscan := ofSourceWithComments_eq_scan h
    have hid : List.filter (isKept true) = id := funext filter_isKept_true
    rw [hid]
    cases hresult : scan [] 0 source.toList with
    | ok all => exact hscan.trans hresult
    | error e => exact hscan.trans hresult

/-- The tokens of a source are some of those that are scanned. -/
theorem scan_of_ofSourceKeeping {comments : Bool} {source : String} {tokens : List Token}
    (hwidth : width source.toList ≤ Span.maxOffset)
    (h : ofSourceKeeping comments source = .ok tokens) :
    ∃ all, scan [] 0 source.toList = .ok all ∧ tokens = all.filter (isKept comments) := by
  rw [ofSourceKeeping_eq_scan comments hwidth] at h
  cases hscan : scan [] 0 source.toList with
  | error e =>
    rw [hscan] at h
    cases h
  | ok all =>
    rw [hscan] at h
    cases h
    exact ⟨all, rfl, rfl⟩

/-- The tokens of a source fit the source, and so does the error if it has
none. From here on nothing that is said about a source has to look at the
scan. -/
theorem ofSource_fits {source : String} (h : width source.toList ≤ Span.maxOffset) :
    match ofSource source with
    | .ok tokens => ∀ t ∈ tokens, t.span.Fits source.toList
    | .error e => e.span.Fits source.toList := by
  have hfits := scan_fits 0 source.toList
  rw [ofSource_eq_scan h]
  cases hscan : scan [] 0 source.toList with
  | error e =>
    rw [hscan] at hfits
    exact hfits.fits
  | ok tokens =>
    rw [hscan] at hfits
    intro t ht
    exact (hfits t (List.mem_filter.1 ht).1).fits

end Token

end UiScript
