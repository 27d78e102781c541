/-
Code points in string literals. A body between double quotes is made of
pieces, one after the other: characters that stand for themselves, a
backslash with what it protects, and code points in braces, `\u{1F600}`. The
first one or two characters of a piece tell which kind it is, so there is one
way only to take a body apart from the left.

A code point is 1 to 6 hexadecimal digits that have the value of a character.
A body that is all pieces stands for what its pieces stand for; where the
characters behind `\u` name no code point, the literal is refused, and the
error starts at that backslash.

# The reading of digits

The value is held in 32 bits. The seventh digit is refused before it is
added, so a value stays below `16 ^ 6`, whatever follows
(`readDigitsBelow_eq`).

# Main statements

* `hexValue?_eq_some_iff`, `charOf?_eq_some_iff`: digits and characters.
* `readCodePoint_eq_ok_iff`: what names a code point.
* `decodeDoubleFrom_pieces`, `decodeDouble_faulty`: bodies of pieces, and
  bodies with a faulty code point.
* `exists_pieces`: there are no other bodies.
* `ofSource_codePoints`: the literals of a source.
-/
import Mathlib.Tactic.IntervalCases
import UiScript.Proofs.Scanning.Bounds
import UiScript.Proofs.Scanning.Literals
import UiScript.Proofs.Text.Digits

namespace UiScript.Token

open Text
open Lexeme (isSpace)

namespace StringLiteral

-- ====================================================================== digits

/-- The hexadecimal digits in the order of their values, with small letters. -/
def smallDigits : List Char := "0123456789abcdef".toList

/-- The hexadecimal digits in the order of their values, with capital letters. -/
def capitalDigits : List Char := "0123456789ABCDEF".toList

/-- A character is the hexadecimal digit of a value, in either case. -/
def IsHexDigit (c : Char) (value : Nat) : Prop :=
  smallDigits[value]? = some c ∨ capitalDigits[value]? = some c

/-- A hexadecimal digit has a value below sixteen. -/
theorem lt_of_isHexDigit {c : Char} {digit : Nat} (h : IsHexDigit c digit) : digit < 16 := by
  rcases h with h | h
  · exact (List.getElem?_eq_some_iff.1 h).1
  · exact (List.getElem?_eq_some_iff.1 h).1

/-- A character between two others is one of those in between. -/
theorem exists_ofNat_of_le {a b c : Char} (h : a ≤ c ∧ c ≤ b) :
    ∃ n, a.toNat ≤ n ∧ n ≤ b.toNat ∧ c = Char.ofNat n :=
  ⟨c.toNat, h.1, h.2, (Char.ofNat_toNat c).symm⟩

/-- Digits are read by their values. -/
theorem hexValue?_eq_some_iff {c : Char} {value : Nat} :
    hexValue? c = some value ↔ IsHexDigit c value := by
  constructor
  · intro h
    unfold hexValue? at h
    split at h
    · next hc =>
      obtain ⟨n, hlow, hhigh, rfl⟩ := exists_ofNat_of_le hc
      obtain rfl := Option.some.inj h
      change 48 ≤ n at hlow
      change n ≤ 57 at hhigh
      left
      interval_cases n <;> rfl
    split at h
    · next hc =>
      obtain ⟨n, hlow, hhigh, rfl⟩ := exists_ofNat_of_le hc
      obtain rfl := Option.some.inj h
      change 97 ≤ n at hlow
      change n ≤ 102 at hhigh
      left
      interval_cases n <;> rfl
    split at h
    · next hc =>
      obtain ⟨n, hlow, hhigh, rfl⟩ := exists_ofNat_of_le hc
      obtain rfl := Option.some.inj h
      change 65 ≤ n at hlow
      change n ≤ 70 at hhigh
      right
      interval_cases n <;> rfl
    · cases h
  · intro h
    have hlt := lt_of_isHexDigit h
    rcases h with h | h
    · interval_cases value <;> cases h <;> rfl
    · interval_cases value <;> cases h <;> rfl

/-- A code point is that of a character, unless it is a surrogate or too
large. Every character has a number, and no two have the same. -/
theorem charOf?_eq_some_iff {n : Nat} {e : Char} : charOf? n = some e ↔ e.toNat = n := by
  unfold charOf?
  constructor
  · intro h
    split at h
    · next hvalid =>
      obtain rfl := Option.some.inj h
      rw [Char.ofNat, dif_pos hvalid]
      rfl
    · cases h
  · rintro rfl
    have hvalid : e.toNat.isValidChar := e.valid
    rw [if_pos hvalid, Char.ofNat_toNat]

-- ================================================================= code points

/-- Characters that name a code point: 1 to 6 digits that have the value of a
character. -/
structure Names (digits : List Char) (e : Char) : Prop where
  nonempty : digits ≠ []
  short : digits.length ≤ 6
  value : ∃ values, List.Forall₂ IsHexDigit digits values
    ∧ Nat.ofDigits 16 values.reverse = e.toNat

/-- Behind `\u`, a code point stands in braces. -/
def StartsCodePoint (cs : List Char) : Prop :=
  ∃ digits e rest, cs = '{' :: (digits ++ '}' :: rest) ∧ Names digits e

/-- The value that digits come to, when `value` has been read before them. -/
def accumulate (value : Nat) (values : List Nat) : Nat :=
  values.foldl (fun n digit => n * 16 + digit) value

/-- From zero on, digits come to the number that they are the digits of. -/
theorem accumulate_zero (values : List Nat) :
    accumulate 0 values = Nat.ofDigits 16 values.reverse := by
  rw [← Decimal.foldl_eq_ofDigits, accumulate]
  simp only [Nat.mul_comm]

/-- Digits are read one by one, as long as there are not too many. -/
theorem readDigits_append {digits : List Char} {values : List Nat}
    (h : List.Forall₂ IsHexDigit digits values) {value count bytes : Nat}
    (hcount : count + digits.length ≤ 6) (cs : List Char) :
    readDigits value count bytes (digits ++ cs)
      = readDigits (accumulate value values) (count + digits.length) (bytes + digits.length) cs := by
  induction h generalizing value count bytes with
  | nil => rfl
  | @cons c digit digits values hc hrest ih =>
    have hdigit := hexValue?_eq_some_iff.2 hc
    have hbrace : c ≠ '}' := by
      rintro rfl
      cases hdigit
    rw [List.length_cons] at hcount ⊢
    rw [List.cons_append, readDigits, if_neg hbrace, hdigit]
    dsimp only
    rw [if_neg (by rw [maxDigits]; omega), ih (by omega)]
    congr 1 <;> omega

/-- What is read as a code point is digits and a closing brace. -/
theorem exists_digits_of_readDigits {value count bytes n : Nat} {cs rest : List Char} {e : Char}
    (hcount : count ≤ 6) (h : readDigits value count bytes cs = .ok (e, n, rest)) :
    ∃ digits values, cs = digits ++ '}' :: rest ∧ List.Forall₂ IsHexDigit digits values
      ∧ 0 < count + digits.length ∧ count + digits.length ≤ 6
      ∧ e.toNat = accumulate value values ∧ n = bytes + digits.length + 1 := by
  fun_induction readDigits value count bytes cs with
  | case1 | case2 | case4 | case5 | case6 => cases h
  | case3 value count bytes cs hpos d hd =>
    cases h
    exact ⟨[], [], rfl, .nil, Nat.pos_of_ne_zero hpos, hcount, charOf?_eq_some_iff.1 hd, rfl⟩
  | case7 value count bytes c cs _ digit hdigit hmore ih =>
    rw [maxDigits] at hmore
    obtain ⟨digits, values, rfl, hvalues, hpos, hshort, he, rfl⟩ := ih (by omega) h
    refine ⟨c :: digits, digit :: values, rfl, .cons (hexValue?_eq_some_iff.1 hdigit) hvalues,
      ?_, ?_, he, ?_⟩
    · rw [List.length_cons]
      omega
    · rw [List.length_cons]
      omega
    · rw [List.length_cons]
      omega

/-- What is read as a code point is digits that name it, in braces. How many
bytes are passed is told as well: the digits and the braces are of one byte
each. -/
theorem readCodePoint_eq_ok_iff {cs rest : List Char} {e : Char} {n : Nat} :
    readCodePoint cs = .ok (e, n, rest) ↔
      ∃ digits, cs = '{' :: (digits ++ '}' :: rest) ∧ Names digits e
        ∧ n = digits.length + 2 := by
  constructor
  · intro h
    cases cs with
    | nil => cases h
    | cons c cs =>
      rw [readCodePoint] at h
      split at h
      · next hc =>
        obtain ⟨digits, values, rfl, hvalues, hpos, hshort, he, rfl⟩ :=
          exists_digits_of_readDigits (Nat.zero_le 6) h
        rw [Nat.zero_add] at hpos hshort
        refine ⟨digits, by rw [hc], ⟨List.ne_nil_of_length_pos hpos, hshort, values, hvalues, ?_⟩,
          by omega⟩
        rw [he, accumulate_zero]
      · cases h
  · rintro ⟨digits, rfl, ⟨hnonempty, hshort, values, hvalues, he⟩, rfl⟩
    have hpos : 0 < digits.length := List.length_pos_iff.2 hnonempty
    rw [readCodePoint, if_pos rfl, readDigits_append hvalues (by omega), readDigits, if_pos rfl,
      if_neg (by omega), accumulate_zero, charOf?_eq_some_iff.2 he.symm]
    dsimp only
    congr 3
    omega

/-- Reading a code point fails where none stands. -/
theorem readCodePoint_fails_iff {cs : List Char} :
    (∃ n, readCodePoint cs = .error n) ↔ ¬ StartsCodePoint cs := by
  constructor
  · rintro ⟨n, hread⟩ ⟨digits, e, rest, hcs, hnames⟩
    rw [readCodePoint_eq_ok_iff.2 ⟨digits, hcs, hnames, rfl⟩] at hread
    cases hread
  · intro h
    cases hread : readCodePoint cs with
    | error n => exact ⟨n, rfl⟩
    | ok found =>
      obtain ⟨e, n, rest⟩ := found
      obtain ⟨digits, hcs, hnames, -⟩ := readCodePoint_eq_ok_iff.1 hread
      exact absurd ⟨digits, e, rest, hcs, hnames⟩ h

-- =============================================================== no overflow

/-- `readDigits` with a limit that values have to stay below; nothing comes of
a value that does not. -/
def readDigitsBelow (limit value count bytes : Nat) :
    List Char → Option (Except Nat (Char × Nat × List Char))
  | [] => some (.error bytes)
  | c :: cs =>
    if c = '}' then
      if count = 0 then some (.error (bytes + 1))
      else match charOf? value with
        | some d => some (.ok (d, bytes + 1, cs))
        | none => some (.error (bytes + 1))
    else match hexValue? c with
      | none => some (.error (bytes + c.utf8Size))
      | some digit =>
        if maxDigits ≤ count then some (.error (bytes + 1))
        else if limit ≤ value * 16 + digit then none
        else readDigitsBelow limit (value * 16 + digit) (count + 1) (bytes + 1) cs

/-- No value reaches `16 ^ 6`: after as many digits as there may be, none is
added. So the value never leaves the 32 bits that it is held in, whatever the
digits are. -/
theorem readDigitsBelow_eq {limit value count : Nat} (hlimit : 16 ^ 6 ≤ limit)
    (hvalue : value < 16 ^ count) (bytes : Nat) (cs : List Char) :
    readDigitsBelow limit value count bytes cs = some (readDigits value count bytes cs) := by
  fun_induction readDigits value count bytes cs with
  | case1 => rfl
  | case2 => simp [readDigitsBelow]
  | case3 value count bytes cs hcount d hd => simp [readDigitsBelow, hcount, hd]
  | case4 value count bytes cs hcount hd => simp [readDigitsBelow, hcount, hd]
  | case5 value count bytes c cs hc hdigit => simp [readDigitsBelow, hc, hdigit]
  | case6 value count bytes c cs hc digit hdigit hmore =>
    simp [readDigitsBelow, hc, hdigit, hmore]
  | case7 value count bytes c cs hc digit hdigit hmore ih =>
    have hlt := lt_of_isHexDigit (hexValue?_eq_some_iff.1 hdigit)
    have hnext : value * 16 + digit < 16 ^ (count + 1) := by
      rw [pow_succ]
      omega
    have hbelow : value * 16 + digit < limit := by
      have hpow : 16 ^ (count + 1) ≤ 16 ^ 6 := Nat.pow_le_pow_right (by decide) (by
        rw [maxDigits] at hmore
        omega)
      omega
    simp only [readDigitsBelow, if_neg hc, hdigit, if_neg hmore, if_neg (Nat.not_le.2 hbelow)]
    exact ih hnext

-- ====================================================================== pieces

/-- What a body between double quotes is made of. -/
inductive Piece where
  /-- A character that stands for itself. -/
  | plain (c : Char)
  /-- A backslash and a line break: nothing. -/
  | lineJoin
  /-- A backslash and a character. -/
  | escaped (c : Char)
  /-- A code point in braces, and its character. -/
  | codePoint (digits : List Char) (e : Char)

namespace Piece

/-- A piece as it is written. -/
def text : Piece → List Char
  | .plain c => [c]
  | .lineJoin => ['\\', '\n']
  | .escaped c => ['\\', c]
  | .codePoint digits _ => '\\' :: 'u' :: '{' :: (digits ++ ['}'])

/-- What a piece stands for. -/
def value : Piece → List Char
  | .plain c => [c]
  | .lineJoin => []
  | .escaped c => [StringLiteral.escaped c]
  | .codePoint _ e => [e]

/-- A piece is of the kind that it looks like, and digits name the character. -/
def Valid : Piece → Prop
  | .plain c => c ≠ '\\'
  | .lineJoin => True
  | .escaped c => c ≠ '\n' ∧ c ≠ 'u'
  | .codePoint digits e => Names digits e

/-- Digits that name a code point are one byte each. -/
theorem width_codePoint {digits : List Char} {e : Char} (h : Names digits e) :
    width (codePoint digits e).text = digits.length + 4 := by
  have hdigits : width digits = digits.length := by
    obtain ⟨-, -, values, hvalues, -⟩ := h
    induction hvalues with
    | nil => rfl
    | cons hc _ ih =>
      rw [width_cons, utf8Size_of_hexValue (hexValue?_eq_some_iff.2 hc), ih, List.length_cons,
        Nat.add_comm]
  have hslash : ('\\').utf8Size = 1 := rfl
  have hletter : ('u').utf8Size = 1 := rfl
  have hopen : ('{').utf8Size = 1 := rfl
  have hclose : ('}').utf8Size = 1 := rfl
  rw [text, width_cons, width_cons, width_cons, width_append, width_cons, width_nil, hdigits, hslash,
    hletter, hopen, hclose]
  omega

end Piece

/-- Pieces as they are written, one after the other. -/
def textOf (pieces : List Piece) : List Char := pieces.flatMap Piece.text

/-- What pieces stand for. -/
def valueOf (pieces : List Piece) : List Char := pieces.flatMap Piece.value

theorem textOf_cons (p : Piece) (ps : List Piece) : textOf (p :: ps) = p.text ++ textOf ps := rfl

theorem valueOf_cons (p : Piece) (ps : List Piece) : valueOf (p :: ps) = p.value ++ valueOf ps := rfl

/-- Behind `\u`, a code point is read. -/
theorem decodeDoubleFrom_codePoint (offset : Nat) (done cs : List Char) :
    decodeDoubleFrom offset done ('\\' :: 'u' :: cs) = match readCodePoint cs with
      | .error bytes => .error (offset, offset + 2 + bytes)
      | .ok (e, bytes, rest) => decodeDoubleFrom (offset + 2 + bytes) (e :: done) rest := by
  rw [decodeDoubleFrom, if_pos rfl, if_neg (by decide), if_pos rfl]
  split
  · next bytes hread => rw [hread]
  · next e bytes rest hread =>
    dsimp only
    rw [hread]

/-- A valid piece is passed, and leaves what it stands for. -/
theorem decodeDoubleFrom_piece {p : Piece} (hp : p.Valid) (offset : Nat) (done cs : List Char) :
    decodeDoubleFrom offset done (p.text ++ cs)
      = decodeDoubleFrom (offset + width p.text) (p.value.reverse ++ done) cs := by
  have hslash : ('\\').utf8Size = 1 := rfl
  cases p with
  | plain c =>
    have hc : c ≠ '\\' := hp
    cases cs with
    | nil => simp [Piece.text, Piece.value, decodeDoubleFrom]
    | cons d cs => simp [Piece.text, Piece.value, decodeDoubleFrom, hc]
  | lineJoin =>
    rw [Piece.text, List.cons_append, List.cons_append, decodeDoubleFrom, if_pos rfl, if_pos rfl]
    rfl
  | escaped c =>
    rw [Piece.text, List.cons_append, List.cons_append, decodeDoubleFrom, if_pos rfl,
      if_neg hp.1, if_neg hp.2]
    simp [Piece.value, hslash, Nat.add_assoc]
  | codePoint digits e =>
    have hread : readCodePoint ('{' :: (digits ++ '}' :: cs)) = .ok (e, digits.length + 2, cs) :=
      readCodePoint_eq_ok_iff.2 ⟨digits, rfl, hp, rfl⟩
    have htext : (Piece.codePoint digits e).text ++ cs
        = '\\' :: 'u' :: '{' :: (digits ++ '}' :: cs) := by
      rw [Piece.text]
      simp
    rw [htext, decodeDoubleFrom_codePoint, hread]
    dsimp only
    rw [Piece.width_codePoint hp, Piece.value]
    simp only [List.reverse_cons, List.reverse_nil, List.nil_append, List.singleton_append]
    congr 1
    omega

/-- Valid pieces are passed, and leave what they stand for. The induction is
on the pieces, and the offset goes on by what they are written with. -/
theorem decodeDoubleFrom_pieces {ps : List Piece} (hps : ∀ p ∈ ps, p.Valid) (offset : Nat)
    (done cs : List Char) :
    decodeDoubleFrom offset done (textOf ps ++ cs)
      = decodeDoubleFrom (offset + width (textOf ps)) ((valueOf ps).reverse ++ done) cs := by
  induction ps generalizing offset done with
  | nil => rfl
  | cons p ps ih =>
    obtain ⟨hp, hps⟩ := List.forall_mem_cons.1 hps
    rw [textOf_cons, valueOf_cons, List.append_assoc, decodeDoubleFrom_piece hp, ih hps,
      width_append, List.reverse_append, List.append_assoc, Nat.add_assoc]

/-- A body of valid pieces stands for what they stand for. -/
theorem decodeDouble_pieces {ps : List Piece} (hps : ∀ p ∈ ps, p.Valid) :
    decodeDouble (textOf ps) = .ok (valueOf ps) := by
  have hall := decodeDoubleFrom_pieces hps 0 [] []
  rw [List.append_nil, List.append_nil, decodeDoubleFrom, List.reverse_reverse] at hall
  exact hall

/-- A body with a faulty code point behind valid pieces is refused for this
one. The error starts at the backslash and ends where the reading of the code
point gave up. -/
theorem decodeDouble_faulty {ps : List Piece} (hps : ∀ p ∈ ps, p.Valid) {tail : List Char}
    (htail : ¬ StartsCodePoint tail) :
    ∃ faulty after, '\\' :: 'u' :: tail = faulty ++ after ∧ faulty ≠ []
      ∧ decodeDouble (textOf ps ++ '\\' :: 'u' :: tail)
        = .error (width (textOf ps), width (textOf ps) + width faulty) := by
  obtain ⟨n, hread⟩ := readCodePoint_fails_iff.2 htail
  obtain ⟨passed, after, rfl, rfl⟩ := readCodePoint_error hread
  refine ⟨'\\' :: 'u' :: passed, after, rfl, List.cons_ne_nil _ _, ?_⟩
  have hwidth : width ('\\' :: 'u' :: passed) = 2 + width passed := by
    have hslash : ('\\').utf8Size = 1 := rfl
    have hletter : ('u').utf8Size = 1 := rfl
    rw [width_cons, width_cons, hslash, hletter, ← Nat.add_assoc]
  rw [decodeDouble, decodeDoubleFrom_pieces hps, decodeDoubleFrom_codePoint, hread, hwidth,
    Nat.zero_add, ← Nat.add_assoc]

-- ============================================================= bodies in pieces

/-- An element in front is counted if there is nothing else behind it. -/
theorem trailing_cons {α : Type} [DecidableEq α] (a b : α) (l : List α) :
    trailing a (b :: l)
      = if trailing a l = l.length ∧ b = a then trailing a l + 1 else trailing a l := by
  unfold trailing
  rw [List.reverse_cons, List.takeWhile_append, List.length_reverse]
  by_cases hall : (l.reverse.takeWhile (· = a)).length = l.length
  · by_cases hb : b = a
    · simp [hall, hb]
    · simp [hall, hb]
  · simp [hall]

/-- No more of an element stand at the end than there are elements. -/
theorem trailing_le {α : Type} [DecidableEq α] (a : α) (l : List α) : trailing a l ≤ l.length := by
  have hle := (List.takeWhile_sublist (l := l.reverse) (· = a)).length_le
  rwa [List.length_reverse] at hle

/-- Behind a character that is no backslash, backslashes are counted as with
it. -/
theorem paired_of_cons {c : Char} (hc : c ≠ '\\') {cs : List Char} (h : Paired (c :: cs)) :
    Paired cs := by
  unfold Paired at h ⊢
  rwa [trailing_cons, if_neg fun hboth => hc hboth.2] at h

/-- Behind a backslash and what it protects, backslashes are paired if they
are with the two. -/
theorem paired_of_pair {d : Char} {cs : List Char} (h : Paired ('\\' :: d :: cs)) : Paired cs := by
  unfold Paired at h ⊢
  have hle := trailing_le '\\' cs
  have hinner := trailing_cons '\\' d cs
  rw [trailing_cons, List.length_cons] at h
  split at h
  · next hboth =>
    -- the backslash in front is counted: all are backslashes
    have hfull := hboth.1
    split at hinner <;> omega
  · next hnot =>
    split at hinner
    · next hboth => exact absurd ⟨by omega, rfl⟩ hnot
    · rwa [hinner] at h

/-- Behind a valid piece, backslashes are paired if they are with it. -/
theorem paired_of_piece {p : Piece} (hp : p.Valid) {cs : List Char} (h : Paired (p.text ++ cs)) :
    Paired cs := by
  cases p with
  | plain c => exact paired_of_cons hp h
  | lineJoin => exact paired_of_pair h
  | escaped c => exact paired_of_pair h
  | codePoint digits e =>
    obtain ⟨-, -, values, hvalues, -⟩ := hp
    rw [Piece.text, List.cons_append, List.cons_append, List.cons_append, List.append_assoc] at h
    have hbehind := paired_of_cons (by decide) (paired_of_pair h)
    clear h
    induction hvalues with
    | nil => exact paired_of_cons (by decide) hbehind
    | @cons c digit digits values hc _ ih =>
      have hslash : c ≠ '\\' := by
        rintro rfl
        cases hexValue?_eq_some_iff.2 hc
      exact ih (paired_of_cons hslash hbehind)

/-- A body starts with a valid piece, or with a faulty code point. -/
theorem exists_piece {body : List Char} (hbody : body ≠ []) (h : Paired body) :
    (∃ p : Piece, p.Valid ∧ ∃ rest, body = p.text ++ rest)
      ∨ ∃ tail, body = '\\' :: 'u' :: tail ∧ ¬ StartsCodePoint tail := by
  obtain ⟨c, cs, rfl⟩ := List.exists_cons_of_ne_nil hbody
  by_cases hc : c = '\\'
  · subst hc
    cases cs with
    | nil => exact absurd h (not_paired_concat paired_nil)
    | cons d cs =>
      by_cases hbreak : d = '\n'
      · subst hbreak
        exact .inl ⟨.lineJoin, trivial, cs, rfl⟩
      by_cases hletter : d = 'u'
      · subst hletter
        by_cases hstarts : StartsCodePoint cs
        · obtain ⟨digits, e, rest, rfl, hnames⟩ := hstarts
          refine .inl ⟨.codePoint digits e, hnames, rest, ?_⟩
          rw [Piece.text]
          simp
        · exact .inr ⟨cs, rfl, hstarts⟩
      · exact .inl ⟨.escaped d, ⟨hbreak, hletter⟩, cs, rfl⟩
  · exact .inl ⟨.plain c, hc, cs, rfl⟩

/-- Every piece is written with a character at least, so a body has no more
pieces than characters. -/
theorem Piece.text_ne_nil (p : Piece) : p.text ≠ [] := by
  cases p <;> exact List.cons_ne_nil _ _

/-- A body is valid pieces, and perhaps a faulty code point behind them. The
body is taken apart from the left. That it is paired keeps the last backslash
from standing alone. -/
theorem exists_pieces {body : List Char} (h : Paired body) :
    ∃ ps : List Piece, (∀ p ∈ ps, p.Valid) ∧ (body = textOf ps
      ∨ ∃ tail, body = textOf ps ++ '\\' :: 'u' :: tail ∧ ¬ StartsCodePoint tail) := by
  induction hn : body.length using Nat.strongRecOn generalizing body with
  | ind n ih =>
    by_cases hbody : body = []
    · exact ⟨[], by simp, .inl hbody⟩
    · obtain ⟨p, hp, rest, rfl⟩ | ⟨tail, rfl, htail⟩ := exists_piece hbody h
      · have hlt : rest.length < n := by
          have hpos := List.length_pos_iff.2 p.text_ne_nil
          rw [← hn, List.length_append]
          omega
        obtain ⟨ps, hps, hrest⟩ := ih _ hlt (paired_of_piece hp h) rfl
        refine ⟨p :: ps, List.forall_mem_cons.2 ⟨hp, hps⟩, ?_⟩
        rw [textOf_cons]
        refine hrest.imp (congrArg _) ?_
        rintro ⟨tail, rfl, htail⟩
        exact ⟨tail, (List.append_assoc ..).symm, htail⟩
      · exact ⟨[], by simp, .inr ⟨tail, rfl, htail⟩⟩

end StringLiteral

-- =============================================================== whole sources

open StringLiteral

/-- A source that is a literal of valid pieces, and nothing else. -/
theorem scan_pieces {ps : List Piece} {stop : Nat} (hps : ∀ p ∈ ps, p.Valid)
    (hbody : splitBody '\x22' (textOf ps ++ ['\x22']) = some (textOf ps, []))
    (hstop : width ('\x22' :: (textOf ps ++ ['\x22'])) = stop) :
    scan [] 0 ('\x22' :: (textOf ps ++ ['\x22']))
      = .ok [⟨.string (String.ofList (valueOf ps)), ⟨0, stop⟩⟩, ⟨.endOfInput, ⟨stop, stop⟩⟩] := by
  have hlexeme := ofChars_quote (.inl rfl) true (textOf ps ++ ['\x22'])
  rw [hbody] at hlexeme
  simp only [decodeBetween, if_pos, decodeDouble_pieces hps] at hlexeme
  exact scan_lexeme rfl hlexeme hstop

/-- A literal between double quotes that a scan comes to stands for what the
pieces of its body stand for, each code point for its character. If there is a
faulty code point, the source is refused for the first one, from its backslash
to a place in the body. Every body is of one of these kinds, and no value
overflows on the way. -/
theorem ofSource_codePoints {source : String} {tokens : List Token} {position : Nat}
    {gap rest body after : List Char} (hwidth : width source.toList ≤ Span.maxOffset)
    (hgap : gap.all isSpace = true)
    (hreaches : Reaches source.toList tokens position (gap ++ '\x22' :: rest))
    (hbody : splitBody '\x22' rest = some (body, after)) :
    let start := position + width gap
    let inner := start + 1
    (∀ ps : List Piece, (∀ p ∈ ps, p.Valid) → body = textOf ps →
      let token : Token :=
        ⟨.string (String.ofList (valueOf ps)), ⟨start, inner + width body + 1⟩⟩
      Reaches source.toList (tokens ++ [token]) (inner + width body + 1) after
        ∧ ∀ comments ts, ofSourceKeeping comments source = .ok ts → token ∈ ts)
    ∧ (∀ ps : List Piece, ∀ tail, (∀ p ∈ ps, p.Valid) →
      body = textOf ps ++ '\\' :: 'u' :: tail → ¬ StartsCodePoint tail →
      let backslash := inner + width (textOf ps)
      ∃ stop, (∀ comments, ofSourceKeeping comments source
          = .error ⟨.invalidCodePoint, ⟨backslash, stop⟩⟩)
        ∧ backslash < stop ∧ stop ≤ inner + width body ∧ IsBoundary source.toList stop)
    ∧ (∃ ps : List Piece, (∀ p ∈ ps, p.Valid) ∧ (body = textOf ps
      ∨ ∃ tail, body = textOf ps ++ '\\' :: 'u' :: tail ∧ ¬ StartsCodePoint tail))
    ∧ ∀ cs, readDigitsBelow (2 ^ 32) 0 0 1 cs = some (readDigits 0 0 1 cs) := by
  intro start inner
  have hquote : ('\x22').utf8Size = 1 := rfl
  have hspace : isSpace '\x22' = false := rfl
  have hlexeme := ofChars_quote (.inl rfl) (beginsLine position gap) rest
  rw [hbody] at hlexeme
  simp only [decodeBetween, if_pos] at hlexeme
  refine ⟨fun ps hps hpieces => ?_, fun ps tail hps hpieces htail => ?_, ?_, fun cs => ?_⟩
  -- all pieces are valid: the literal is a token
  · intro token
    rw [hpieces, decodeDouble_pieces hps, ← hpieces] at hlexeme
    have hmade := hreaches.lexeme hgap hspace hlexeme
    have hone : width ('\x22' :: (body ++ ['\x22'])) = 1 + width body + 1 := by
      rw [width_cons, width_append, width_cons, width_nil, hquote, Nat.add_assoc]
    simp only [hone, ← Nat.add_assoc] at hmade
    refine ⟨hmade, fun comments ts hts => ?_⟩
    exact hmade.mem_of_ofSource hwidth hts List.mem_concat_self (Bool.or_true comments)
  -- a code point is faulty: the error is found inside of the body, whose offset is that of the
  -- quote
  · intro backslash
    obtain ⟨faulty, behind, hsplit, hfaulty, hdecode⟩ := decodeDouble_faulty hps htail
    rw [← hpieces] at hdecode
    rw [hdecode] at hlexeme
    have herror := hreaches.ofSource_error_of_width_le hwidth hgap hspace hlexeme
    obtain ⟨passed, hsource, rfl⟩ := hreaches.exists_passed
    -- the error ends behind characters of the body, so between characters of the source
    have hstop : IsBoundary source.toList (backslash + width faulty) := by
      refine ⟨passed ++ (gap ++ '\x22' :: (textOf ps ++ faulty)),
        behind ++ '\x22' :: after, ?_, ?_⟩
      · rw [hsource, splitBody_eq hbody, hpieces, hsplit]
        simp
      · simp only [width_append, width_cons, hquote, backslash, inner, start]
        omega
    have hpos := width_pos hfaulty
    refine ⟨backslash + width faulty, fun comments => ?_, by omega, ?_, hstop⟩
    · rw [herror]
      simp only [LexicalError.shift, Span.shift, backslash, inner, start, Nat.add_assoc]
    · rw [hpieces, hsplit]
      simp only [width_append, backslash]
      omega
  · exact exists_pieces (splitBodyFrom_paired [] paired_nil hbody)
  · exact readDigitsBelow_eq (by decide) (by decide) 1 cs

/-- A code point of five digits, of both cases; and a surrogate, behind a
protected backslash and a letter that look like an escape and are none. -/
theorem ofSource_codePoints_grin :
    Reaches "\"\\u\x7b1f60A\x7d\"".toList [⟨.string "😊", ⟨0, 11⟩⟩] 11 []
      ∧ ∃ stop, ofSource "\"\\\\u\\u\x7bD800\x7d\"" = .error ⟨.invalidCodePoint, ⟨4, stop⟩⟩
        ∧ 4 < stop ∧ stop ≤ 12 := by
  have hnames : Names ['1', 'f', '6', '0', 'A'] '😊' := by
    refine ⟨by decide, by decide, [1, 15, 6, 0, 10], ?_, by decide⟩
    refine .cons (.inl rfl) (.cons (.inl rfl) (.cons (.inl rfl) (.cons (.inl rfl) ?_)))
    exact .cons (.inr rfl) .nil
  have hfaulty : ¬ StartsCodePoint ['{', 'D', '8', '0', '0', '}'] :=
    readCodePoint_fails_iff.1 ⟨6, rfl⟩
  constructor
  · have hmade := (@ofSource_codePoints "\"\\u\x7b1f60A\x7d\"" [] 0 []
      ['\\', 'u', '{', '1', 'f', '6', '0', 'A', '}', '\x22']
      ['\\', 'u', '{', '1', 'f', '6', '0', 'A', '}'] [] (by decide) rfl .start rfl).1
      [.codePoint ['1', 'f', '6', '0', 'A'] '😊'] (by simpa [Piece.Valid] using hnames) rfl
    exact hmade.1
  · obtain ⟨stop, herror, hlt, hle, -⟩ := (@ofSource_codePoints "\"\\\\u\\u\x7bD800\x7d\"" [] 0 []
      ['\\', '\\', 'u', '\\', 'u', '{', 'D', '8', '0', '0', '}', '\x22']
      ['\\', '\\', 'u', '\\', 'u', '{', 'D', '8', '0', '0', '}'] [] (by decide) rfl .start
      rfl).2.1 [.escaped '\\', .plain 'u'] ['{', 'D', '8', '0', '0', '}']
      (by simp [Piece.Valid]) rfl hfaulty
    exact ⟨stop, herror false, hlt, hle⟩

end UiScript.Token
