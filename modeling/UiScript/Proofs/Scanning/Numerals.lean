/-
Numerals are the longest ones there are. The form of a numeral is a regular
language, and the reader decides by what comes next, two or three characters
ahead, whether it goes on; none of its decisions keeps it from a longer
numeral, and none leads it to what is no numeral.

# The argument

A part of a numeral, be it digits, a fraction or an exponent, is taken whole
whatever follows it, and then as many digits more as stand there
(`splitDigits_append_of_mem`, `splitFraction_append_of_mem`,
`splitExponent_append_of_mem`). So a numeral at the front of a text is taken
part by part, and what is taken starts with it. On the other hand what is
taken is a numeral (`text_mem_numerals`).

What a numeral stands for is told by its digits alone; without the
underscores it is a decimal that has a double nearest to it.

# Main statements

* `text_mem_numerals`, `isPrefix_text_of_mem`: the longest numeral.
* `wholeValue_eq_of_mem`: the value of a numeral that is whole.
* `exists_readFloat?_of_mem`: every numeral is a decimal that can be read.
* `ofSource_numeral`: the numerals of a source.
-/
import Mathlib.Computability.Language
import UiScript.Proofs.Scanning.CodePoints
import UiScript.Proofs.Scanning.Cutoff

namespace UiScript.Token

open Text
open Lexeme (isSpace)
open scoped Computability

namespace Numeral

-- ================================================================= the language

/-- One character. -/
def mark (c : Char) : Language Char := {[c]}

/-- A text of a language, or nothing. -/
def optional (l : Language Char) : Language Char := 1 + l

/-- One digit. -/
def digit : Language Char := {cs | ∃ c, c.isDigit = true ∧ cs = [c]}

/-- Digits behind a digit, with single underscores before them. -/
def moreDigits : Language Char := (optional (mark '_') * digit)∗

/-- Digits, with single underscores between them. -/
def digits : Language Char := digit * moreDigits

/-- A point and what follows it. -/
def fractions (run : Language Char) : Language Char := mark '.' * run

/-- The mark `e` of either case, perhaps a sign, and what follows it. -/
def exponents (run : Language Char) : Language Char :=
  (mark 'e' + mark 'E') * (optional (mark '+' + mark '-') * run)

/-- Perhaps a minus sign, and what follows it. -/
def wholes (run : Language Char) : Language Char := optional (mark '-') * run

/-- A whole part, perhaps a fraction, and perhaps an exponent. -/
def decimals (run : Language Char) : Language Char :=
  wholes run * (optional (fractions run) * optional (exponents run))

/-- Numerals as they are written. -/
def numerals : Language Char := decimals digits

theorem mem_optional {l : Language Char} {cs : List Char} :
    cs ∈ optional l ↔ cs = [] ∨ cs ∈ l := Iff.rfl

-- =============================================================== more digits

/-- A digit is none of the other characters. -/
theorem ne_of_isDigit {c a : Char} (hc : c.isDigit = true) (ha : a.isDigit = false) : c ≠ a := by
  rintro rfl
  exact Bool.false_ne_true (ha.symm.trans hc)

/-- There need be no more digits. -/
theorem nil_mem_moreDigits : [] ∈ moreDigits := Language.nil_mem_kstar _

/-- A digit, with an underscore before it if there is one, may come before
more digits. -/
theorem append_mem_moreDigits {cs ds : List Char} (h : cs ∈ optional (mark '_') * digit)
    (hds : ds ∈ moreDigits) : cs ++ ds ∈ moreDigits := by
  obtain ⟨pieces, rfl, hpieces⟩ := hds
  rw [← List.flatten_cons]
  exact Language.join_mem_kstar (List.forall_mem_cons.2 ⟨h, hpieces⟩)

theorem digit_mem_moreDigits {c : Char} (hc : c.isDigit = true) {cs : List Char}
    (h : cs ∈ moreDigits) : c :: cs ∈ moreDigits :=
  append_mem_moreDigits (Language.append_mem_mul (.inl rfl) ⟨c, hc, rfl⟩) h

/-- An underscore needs a digit behind it, so two of them cannot stand
together. -/
theorem underscore_mem_moreDigits {c : Char} (hc : c.isDigit = true) {cs : List Char}
    (h : cs ∈ moreDigits) : '_' :: c :: cs ∈ moreDigits :=
  append_mem_moreDigits (Language.append_mem_mul (.inr rfl) ⟨c, hc, rfl⟩) h

/-- The induction along digits behind a digit. -/
@[elab_as_elim]
theorem moreDigits_induct {P : List Char → Prop} (nil : P [])
    (digit : ∀ c cs, c.isDigit = true → P cs → P (c :: cs))
    (underscore : ∀ c cs, c.isDigit = true → P cs → P ('_' :: c :: cs))
    {cs : List Char} (h : cs ∈ moreDigits) : P cs := by
  obtain ⟨pieces, rfl, hpieces⟩ := h
  induction pieces with
  | nil => exact nil
  | cons piece pieces ih =>
    obtain ⟨hpiece, hrest⟩ := List.forall_mem_cons.1 hpieces
    obtain ⟨sign, hsign, last, ⟨c, hc, rfl⟩, rfl⟩ := Language.mem_mul.1 hpiece
    rw [List.flatten_cons]
    obtain rfl | rfl := mem_optional.1 hsign
    · exact digit c _ hc (ih hrest)
    · exact underscore c _ hc (ih hrest)

/-- Digits start with a digit: no underscore stands in front. -/
theorem mem_digits {cs : List Char} :
    cs ∈ digits ↔ ∃ c ds, c.isDigit = true ∧ ds ∈ moreDigits ∧ cs = c :: ds := by
  constructor
  · intro h
    obtain ⟨_, ⟨c, hc, rfl⟩, ds, hds, rfl⟩ := Language.mem_mul.1 h
    exact ⟨c, ds, hc, hds, rfl⟩
  · rintro ⟨c, ds, hc, hds, rfl⟩
    exact Language.append_mem_mul (a := [c]) ⟨c, hc, rfl⟩ hds

-- ============================================================ reading of digits

/-- What has been passed stands in front, and makes no difference. -/
theorem splitDigitsFrom_eq_append (run cs : List Char) :
    splitDigitsFrom run cs = (run.reverse ++ (splitDigits cs).1, (splitDigits cs).2) := by
  induction cs generalizing run with
  | nil => simp [splitDigits, splitDigitsFrom]
  | cons c cs ih =>
    rw [splitDigits, splitDigitsFrom, splitDigitsFrom]
    split
    · rw [ih (c :: run), ih [c]]
      simp
    · simp

/-- A digit is taken, and an underscore is if a digit comes behind it. -/
theorem splitDigits_cons_of_pos {c : Char} {cs : List Char}
    (h : (c.isDigit || (c == '_' && startsWithDigit cs)) = true) :
    splitDigits (c :: cs) = (c :: (splitDigits cs).1, (splitDigits cs).2) := by
  rw [splitDigits, splitDigitsFrom, if_pos h, splitDigitsFrom_eq_append]
  rfl

/-- Anything else ends the run, and nothing is taken. -/
theorem splitDigits_cons_of_neg {c : Char} {cs : List Char}
    (h : ¬ (c.isDigit || (c == '_' && startsWithDigit cs)) = true) :
    splitDigits (c :: cs) = ([], c :: cs) := by
  rw [splitDigits, splitDigitsFrom, if_neg h]
  rfl

/-- What is taken are digits, in front of which a digit may stand or must, as
one comes next. -/
theorem splitDigits_mem (cs : List Char) :
    (splitDigits cs).1 ∈ moreDigits
      ∧ (startsWithDigit cs = true → (splitDigits cs).1 ∈ digits) := by
  induction cs with
  | nil => exact ⟨nil_mem_moreDigits, fun h => by cases h⟩
  | cons c cs ih =>
    by_cases hc : c.isDigit = true
    · rw [splitDigits_cons_of_pos (by rw [hc, Bool.true_or])]
      exact ⟨digit_mem_moreDigits hc ih.1, fun _ => mem_digits.2 ⟨c, _, hc, ih.1, rfl⟩⟩
    · refine ⟨?_, fun h => absurd h hc⟩
      by_cases hpair : (c.isDigit || (c == '_' && startsWithDigit cs)) = true
      · rw [splitDigits_cons_of_pos hpair]
        simp only [hc, Bool.false_or, Bool.and_eq_true, beq_iff_eq] at hpair
        obtain ⟨rfl, hnext⟩ := hpair
        obtain ⟨d, ds, hd, hds, heq⟩ := mem_digits.1 (ih.2 hnext)
        dsimp only
        rw [heq]
        exact underscore_mem_moreDigits hd hds
      · rw [splitDigits_cons_of_neg hpair]
        exact nil_mem_moreDigits

/-- Digits are taken whole, and more of them if there are any. -/
theorem splitDigits_append_of_more {ds : List Char} (h : ds ∈ moreDigits) (more : List Char) :
    splitDigits (ds ++ more) = (ds ++ (splitDigits more).1, (splitDigits more).2) := by
  refine moreDigits_induct rfl (fun c cs hc ih => ?_) (fun c cs hc ih => ?_) h
  · rw [List.cons_append, splitDigits_cons_of_pos (by rw [hc, Bool.true_or]), ih]
    rfl
  · have hnext : startsWithDigit (c :: (cs ++ more)) = true := hc
    rw [List.cons_append, List.cons_append, splitDigits_cons_of_pos (by rw [hnext]; rfl),
      splitDigits_cons_of_pos (by rw [hc, Bool.true_or]), ih]
    rfl

/-- Digits are taken whole, and then as many more as stand behind them. -/
theorem splitDigits_append_of_mem {ds : List Char} (h : ds ∈ digits) (more : List Char) :
    splitDigits (ds ++ more) = (ds ++ (splitDigits more).1, (splitDigits more).2) := by
  obtain ⟨c, cs, hc, hcs, rfl⟩ := mem_digits.1 h
  exact splitDigits_append_of_more (digit_mem_moreDigits hc hcs) more

/-- Where neither a digit nor an underscore comes next, no digits are taken. -/
theorem splitDigits_cons_of_mark {c : Char} (hdigit : c.isDigit = false) (hc : c ≠ '_')
    (cs : List Char) : splitDigits (c :: cs) = ([], c :: cs) :=
  splitDigits_cons_of_neg (by simp [hdigit, hc])

-- ================================================================ the other parts

/-- What starts with digits starts with a digit. -/
theorem startsWithDigit_append_of_mem {ds : List Char} (h : ds ∈ digits) (more : List Char) :
    startsWithDigit (ds ++ more) = true := by
  obtain ⟨c, cs, hc, -, rfl⟩ := mem_digits.1 h
  exact hc

theorem mem_fractions {run : Language Char} {cs : List Char} :
    cs ∈ fractions run ↔ ∃ ds ∈ run, cs = '.' :: ds := by
  constructor
  · intro h
    obtain ⟨_, rfl, ds, hds, rfl⟩ := Language.mem_mul.1 h
    exact ⟨ds, hds, rfl⟩
  · rintro ⟨ds, hds, rfl⟩
    exact Language.append_mem_mul (a := ['.']) rfl hds

/-- The signs that may stand in an exponent. -/
def IsSign (sign : List Char) : Prop := sign = [] ∨ sign = ['+'] ∨ sign = ['-']

/-- An exponent by its parts: the letter, the sign if there is one, and the
digits. -/
theorem mem_exponents {run : Language Char} {cs : List Char} :
    cs ∈ exponents run ↔ ∃ e sign, ∃ ds ∈ run, (e = 'e' ∨ e = 'E') ∧ IsSign sign
      ∧ cs = e :: (sign ++ ds) := by
  constructor
  · intro h
    obtain ⟨first, hfirst, _, hrest, rfl⟩ := Language.mem_mul.1 h
    obtain ⟨sign, hsign, ds, hds, rfl⟩ := Language.mem_mul.1 hrest
    obtain rfl | rfl := hfirst
    · exact ⟨'e', sign, ds, hds, .inl rfl, hsign, rfl⟩
    · exact ⟨'E', sign, ds, hds, .inr rfl, hsign, rfl⟩
  · rintro ⟨e, sign, ds, hds, he, hsign, rfl⟩
    refine Language.append_mem_mul (a := [e]) ?_ (Language.append_mem_mul hsign hds)
    obtain rfl | rfl := he
    · exact .inl rfl
    · exact .inr rfl

/-- What is taken as a fraction is one, or nothing. -/
theorem splitFraction_mem (cs : List Char) :
    (splitFraction cs).1 ∈ optional (fractions digits) := by
  fun_cases splitFraction cs with
  | case1 cs hnext => exact .inr (mem_fractions.2 ⟨_, (splitDigits_mem cs).2 hnext, rfl⟩)
  | case2 | case3 => exact .inl rfl

/-- What is taken as an exponent is one, or nothing. -/
theorem splitExponent_mem (cs : List Char) :
    (splitExponent cs).1 ∈ optional (exponents digits) := by
  fun_cases splitExponent cs with
  | case3 e sign cs he hsigned =>
    refine .inr (mem_exponents.2 ⟨e, [sign], _, (splitDigits_mem cs).2 hsigned.2, he, ?_, rfl⟩)
    exact .inr (hsigned.1.imp (congrArg ([·])) (congrArg ([·])))
  | case4 e d cs he _ hdigit =>
    exact .inr (mem_exponents.2 ⟨e, [], _, (splitDigits_mem (d :: cs)).2 hdigit, he, .inl rfl, rfl⟩)
  | case1 | case2 | case5 | case6 => exact .inl rfl

/-- A fraction is taken whole. The point is taken since a digit comes behind
it. -/
theorem splitFraction_append_of_mem {cs : List Char} (h : cs ∈ fractions digits)
    (more : List Char) :
    splitFraction (cs ++ more) = (cs ++ (splitDigits more).1, (splitDigits more).2) := by
  obtain ⟨ds, hds, rfl⟩ := mem_fractions.1 h
  rw [List.cons_append, splitFraction, if_pos (startsWithDigit_append_of_mem hds more),
    splitDigits_append_of_mem hds]
  rfl

/-- An exponent is taken whole. The letter is taken since a digit comes behind
it, or behind the sign. -/
theorem splitExponent_append_of_mem {cs : List Char} (h : cs ∈ exponents digits)
    (more : List Char) :
    splitExponent (cs ++ more) = (cs ++ (splitDigits more).1, (splitDigits more).2) := by
  obtain ⟨e, sign, ds, hds, he, hsign, rfl⟩ := mem_exponents.1 h
  have hnext := startsWithDigit_append_of_mem hds more
  obtain rfl | hsign := hsign
  · obtain ⟨c, tail, hc, -, rfl⟩ := mem_digits.1 hds
    have hnosign : ¬ ((c = '+' ∨ c = '-') ∧ startsWithDigit (tail ++ more) = true) := by
      rintro ⟨rfl | rfl, -⟩
      · cases hc
      · cases hc
    rw [List.nil_append, List.cons_append, List.cons_append, splitExponent, if_pos he,
      if_neg hnosign, if_pos hc, ← List.cons_append, splitDigits_append_of_mem hds]
    rfl
  · obtain ⟨s, hs, rfl⟩ : ∃ s, (s = '+' ∨ s = '-') ∧ sign = [s] := by
      obtain rfl | rfl := hsign
      · exact ⟨'+', .inl rfl, rfl⟩
      · exact ⟨'-', .inr rfl, rfl⟩
    rw [List.cons_append, List.cons_append, List.cons_append, List.nil_append, splitExponent,
      if_pos he, if_pos ⟨hs, hnext⟩, splitDigits_append_of_mem hds]
    rfl

-- ============================================================== whole numerals

/-- A numeral comes next. -/
def Starts : List Char → Prop
  | [] => False
  | c :: cs => c.isDigit = true ∨ c = '-' ∧ startsWithDigit cs = true

/-- Where a digit comes next, no sign does. -/
theorem splitSign_of_digit {cs : List Char} (h : startsWithDigit cs = true) :
    splitSign cs = ([], cs) := by
  unfold splitSign
  split
  · cases h
  · rfl

/-- Behind a sign or none, a digit comes next. -/
theorem Starts.splitSign {cs : List Char} (h : Starts cs) :
    (splitSign cs).1 ∈ optional (mark '-') ∧ startsWithDigit (splitSign cs).2 = true := by
  cases cs with
  | nil => cases h
  | cons c cs =>
    obtain hc | ⟨rfl, hnext⟩ := h
    · rw [show Numeral.splitSign (c :: cs) = ([], c :: cs) from splitSign_of_digit hc]
      exact ⟨.inl rfl, hc⟩
    · exact ⟨.inr rfl, hnext⟩

/-- The whole part of what is taken is one. -/
theorem whole_mem_wholes {cs : List Char} (h : Starts cs) :
    (split cs).1.whole ∈ wholes digits := by
  obtain ⟨hsign, hnext⟩ := h.splitSign
  exact Language.append_mem_mul hsign ((splitDigits_mem _).2 hnext)

/-- What is taken where a numeral comes next is one. Each part is taken only
where it is complete. -/
theorem text_mem_numerals {cs : List Char} (h : Starts cs) : (split cs).1.text ∈ numerals := by
  have hfraction := splitFraction_mem (splitDigits (splitSign cs).2).2
  have hexponent := splitExponent_mem (splitFraction (splitDigits (splitSign cs).2).2).2
  have hall := Language.append_mem_mul (whole_mem_wholes h)
    (Language.append_mem_mul hfraction hexponent)
  rw [← List.append_assoc] at hall
  exact hall

/-- A fraction does not go on with the digits before it. -/
theorem splitDigits_of_fraction {f : List Char} (h : f ∈ fractions digits) (more : List Char) :
    splitDigits (f ++ more) = ([], f ++ more) := by
  obtain ⟨ds, -, rfl⟩ := mem_fractions.1 h
  exact splitDigits_cons_of_mark (by decide) (by decide) _

/-- An exponent goes on neither with the digits before it nor with a fraction. -/
theorem split_of_exponent {e : List Char} (h : e ∈ exponents digits) (more : List Char) :
    splitDigits (e ++ more) = ([], e ++ more) ∧ splitFraction (e ++ more) = ([], e ++ more) := by
  obtain ⟨c, sign, ds, -, hc, -, rfl⟩ := mem_exponents.1 h
  obtain rfl | rfl := hc
  · exact ⟨splitDigits_cons_of_mark (by decide) (by decide) _, rfl⟩
  · exact ⟨splitDigits_cons_of_mark (by decide) (by decide) _, rfl⟩

/-- A whole part that stands in front is taken, and more digits if there are
any. -/
theorem splitSign_append_of_mem {w : List Char} (h : w ∈ wholes digits) (more : List Char) :
    ∃ sign afterSign, splitSign (w ++ more) = (sign, afterSign)
      ∧ sign ++ (splitDigits afterSign).1 = w ++ (splitDigits more).1
      ∧ (splitDigits afterSign).2 = (splitDigits more).2 := by
  obtain ⟨sign, hsign, ds, hds, rfl⟩ := Language.mem_mul.1 h
  have hnext := startsWithDigit_append_of_mem hds more
  refine ⟨sign, ds ++ more, ?_, ?_, ?_⟩
  · obtain rfl | rfl := mem_optional.1 hsign
    · exact splitSign_of_digit hnext
    · rfl
  · rw [splitDigits_append_of_mem hds, List.append_assoc]
  · rw [splitDigits_append_of_mem hds]

/-- A numeral that stands in front is taken: what is taken starts with it.
There may be a longer one, and then that is taken; none that is shorter is. -/
theorem isPrefix_text_of_mem {t : List Char} (ht : t ∈ numerals) (more : List Char) :
    t <+: (split (t ++ more)).1.text := by
  obtain ⟨w, hw, _, hrest, rfl⟩ := Language.mem_mul.1 ht
  obtain ⟨f, hf, e, he, rfl⟩ := Language.mem_mul.1 hrest
  obtain ⟨sign, afterSign, hsign, hwhole, hafter⟩ := splitSign_append_of_mem hw (f ++ e ++ more)
  rw [List.append_assoc w]
  simp only [split, hsign, text, hwhole, hafter]
  -- a part that is there is taken whole; where the last one ends, more digits may follow
  obtain rfl | hf := mem_optional.1 hf
  · obtain rfl | he := mem_optional.1 he
    · simp only [List.append_nil, List.nil_append, List.append_assoc]
      exact List.prefix_append ..
    · obtain ⟨hdigits, hfraction⟩ := split_of_exponent he more
      rw [List.nil_append, hdigits]
      dsimp only
      rw [hfraction, splitExponent_append_of_mem he]
      simp only [List.append_nil, List.prefix_append_right_inj]
      exact List.prefix_append ..
  · rw [List.append_assoc f, splitDigits_of_fraction hf]
    dsimp only
    rw [splitFraction_append_of_mem hf]
    obtain rfl | he := mem_optional.1 he
    · simp only [List.append_nil, List.nil_append, List.append_assoc, List.prefix_append_right_inj]
      exact List.prefix_append ..
    · rw [(split_of_exponent he more).1]
      dsimp only
      rw [splitExponent_append_of_mem he]
      simp only [List.append_nil, List.append_assoc, List.prefix_append_right_inj]
      exact List.prefix_append ..

-- ======================================================================== values

/-- The whole number that the digits of a text stand for, behind a minus sign
below zero. -/
def signedValue (cs : List Char) : Int :=
  let value : Nat := Nat.ofDigits 10 ((cs.filter Char.isDigit).map Decimal.digitValue).reverse
  if cs.head? = some '-' then -(value : Int) else value

/-- Digits, without anything between them. -/
def plainDigits : Language Char := {cs | Decimal.areDigits cs = true}

/-- Without the underscores, digits are left. -/
theorem filter_moreDigits {ds : List Char} (h : ds ∈ moreDigits) :
    ds.filter (· != '_') = ds.filter Char.isDigit := by
  have hother {c : Char} (hc : c.isDigit = true) : (c != '_') = true :=
    bne_iff_ne.2 (ne_of_isDigit hc rfl)
  refine moreDigits_induct rfl (fun c cs hc ih => ?_) (fun c cs hc ih => ?_) h
  · rw [List.filter_cons, if_pos (hother hc), List.filter_cons_of_pos hc, ih]
  · have hnone : ('_').isDigit = false := rfl
    simp [hother hc, hc, hnone, ih]

/-- Without the underscores, digits are plain digits. -/
theorem filter_digits {ds : List Char} (h : ds ∈ digits) :
    ds.filter (· != '_') = ds.filter Char.isDigit ∧ ds.filter (· != '_') ∈ plainDigits := by
  obtain ⟨c, cs, hc, hcs, rfl⟩ := mem_digits.1 h
  have heq := filter_moreDigits (digit_mem_moreDigits hc hcs)
  refine ⟨heq, ?_⟩
  show Decimal.areDigits _ = true
  rw [heq, Decimal.areDigits, List.filter_cons_of_pos hc]
  simp [hc]

/-- Plain digits start with one. -/
theorem mem_plainDigits {cs : List Char} :
    cs ∈ plainDigits ↔ ∃ c ds, cs = c :: ds ∧ ∀ d ∈ c :: ds, d.isDigit = true := by
  show Decimal.areDigits cs = true ↔ _
  cases cs with
  | nil => simp [Decimal.areDigits]
  | cons c ds => simp [Decimal.areDigits]

/-- A whole part stands for its digits, below zero behind a minus sign.
Underscores are left out first, and they are no digits. -/
theorem wholeValue_eq_of_mem {w : List Char} (h : w ∈ wholes digits) :
    wholeValue (w.filter (· != '_')) = signedValue w := by
  obtain ⟨sign, hsign, ds, hds, rfl⟩ := Language.mem_mul.1 h
  obtain ⟨hfilter, hplain⟩ := filter_digits hds
  obtain rfl | rfl := mem_optional.1 hsign
  · obtain ⟨c, cs, hc, -, rfl⟩ := mem_digits.1 hds
    obtain ⟨d, more, hmore, hdigits⟩ := mem_plainDigits.1 hplain
    have hd := (List.forall_mem_cons.1 hdigits).1
    have hvalue : wholeValue (d :: more) = Decimal.valueOf (d :: more) := by
      unfold wholeValue
      split
      · next heq =>
        exact absurd (List.cons.inj heq).1 (ne_of_isDigit hd rfl)
      · rfl
    rw [List.nil_append, hmore, hvalue, ← hmore, hfilter, Decimal.valueOf_eq, signedValue,
      List.head?_cons, if_neg fun heq => ne_of_isDigit hc rfl (Option.some.inj heq)]
  · rw [List.singleton_append, List.filter_cons, if_pos (by decide), hfilter, wholeValue,
      Decimal.valueOf_eq, signedValue, List.head?_cons, if_pos rfl, List.filter_cons_of_neg (by decide)]

-- ===================================================================== reading

/-- Without the underscores, a numeral is a decimal of plain digits. -/
theorem filter_mem_decimals {t : List Char} (h : t ∈ numerals) :
    t.filter (· != '_') ∈ decimals plainDigits := by
  obtain ⟨w, hw, _, hrest, rfl⟩ := Language.mem_mul.1 h
  obtain ⟨f, hf, e, he, rfl⟩ := Language.mem_mul.1 hrest
  obtain ⟨sign, hsign, ds, hds, rfl⟩ := Language.mem_mul.1 hw
  rw [List.filter_append, List.filter_append, List.filter_append]
  refine Language.append_mem_mul (Language.append_mem_mul ?_ (filter_digits hds).2)
    (Language.append_mem_mul ?_ ?_)
  · obtain rfl | rfl := mem_optional.1 hsign
    · exact .inl rfl
    · exact .inr rfl
  · obtain rfl | hf := mem_optional.1 hf
    · exact .inl rfl
    · obtain ⟨ds, hds, rfl⟩ := mem_fractions.1 hf
      exact .inr (mem_fractions.2 ⟨_, (filter_digits hds).2, rfl⟩)
  · obtain rfl | he := mem_optional.1 he
    · exact .inl rfl
    · obtain ⟨c, sign, ds, hds, hc, hsign, rfl⟩ := mem_exponents.1 he
      refine .inr (mem_exponents.2 ⟨c, sign, _, (filter_digits hds).2, hc, hsign, ?_⟩)
      obtain rfl | rfl := hc
      · obtain rfl | rfl | rfl := hsign <;> rfl
      · obtain rfl | rfl | rfl := hsign <;> rfl

/-- Characters up to the first one that is not like them. -/
theorem span_append {p : Char → Bool} {cs ds : List Char} (hcs : ∀ c ∈ cs, p c = true)
    (hds : ∀ d ∈ ds.head?, p d = false) : (cs ++ ds).span p = (cs, ds) := by
  rw [List.span_eq_takeWhile_dropWhile, List.takeWhile_append_of_pos hcs,
    List.dropWhile_append_of_pos hcs]
  cases ds with
  | nil => simp
  | cons d ds =>
    have hd := hds d rfl
    simp [hd]

/-- An exponent is read, whatever its sign. -/
theorem exists_readExponent? {sign ds : List Char} (hsign : IsSign sign) (hds : ds ∈ plainDigits) :
    ∃ n, Decimal.readExponent? (sign ++ ds) = some n := by
  have hdigits : Decimal.areDigits ds = true := hds
  obtain rfl | rfl | rfl := hsign
  · obtain ⟨c, cs, rfl, hall⟩ := mem_plainDigits.1 hds
    have hc := (List.forall_mem_cons.1 hall).1
    rw [List.nil_append]
    unfold Decimal.readExponent?
    split
    · next heq => exact absurd (List.cons.inj heq).1 (ne_of_isDigit hc rfl)
    · next heq => exact absurd (List.cons.inj heq).1 (ne_of_isDigit hc rfl)
    · exact ⟨_, if_pos hdigits⟩
  · exact ⟨_, if_pos hdigits⟩
  · exact ⟨_, if_pos hdigits⟩

/-- No digit is the mark of an exponent. -/
theorem not_mark_of_mem {c : Char} {cs : List Char} (hcs : cs ∈ plainDigits) (hc : c ∈ cs) :
    (c ≠ 'e' && c ≠ 'E') = true := by
  obtain ⟨_, _, rfl, hall⟩ := mem_plainDigits.1 hcs
  have hdigit := hall c hc
  rw [Bool.and_eq_true, decide_eq_true_eq, decide_eq_true_eq]
  exact ⟨ne_of_isDigit hdigit rfl, ne_of_isDigit hdigit rfl⟩

/-- A decimal without a sign is read. -/
theorem exists_readUnsigned? {ds f e : List Char} (hds : ds ∈ plainDigits)
    (hf : f ∈ optional (fractions plainDigits)) (he : e ∈ optional (exponents plainDigits)) :
    ∃ d, Decimal.readUnsigned? (ds ++ f ++ e) = some d := by
  have hdigits : Decimal.areDigits ds = true := hds
  -- the parts are told apart by the mark of the exponent, and by the point
  have hexponent : (ds ++ f ++ e).span (fun c => c ≠ 'e' && c ≠ 'E') = (ds ++ f, e) := by
    refine span_append (fun c hc => ?_) fun c hc => ?_
    · obtain hc | hc := List.mem_append.1 hc
      · exact not_mark_of_mem hds hc
      · obtain rfl | hf := mem_optional.1 hf
        · cases hc
        · obtain ⟨more, hmore, rfl⟩ := mem_fractions.1 hf
          obtain rfl | hc := List.mem_cons.1 hc
          · rfl
          · exact not_mark_of_mem hmore hc
    · obtain rfl | he := mem_optional.1 he
      · cases hc
      · obtain ⟨first, sign, more, -, hfirst, -, rfl⟩ := mem_exponents.1 he
        obtain rfl := Option.some.inj hc
        obtain rfl | rfl := hfirst <;> rfl
  have hfraction : (ds ++ f).span (fun c => decide (c ≠ '.')) = (ds, f) := by
    refine span_append (fun c hc => ?_) fun c hc => ?_
    · obtain ⟨_, _, rfl, hall⟩ := mem_plainDigits.1 hds
      exact decide_eq_true (ne_of_isDigit (hall c hc) rfl)
    · obtain rfl | hf := mem_optional.1 hf
      · cases hc
      · obtain ⟨more, -, rfl⟩ := mem_fractions.1 hf
        obtain rfl := Option.some.inj hc
        rfl
  unfold Decimal.readUnsigned?
  simp only [hexponent, hfraction, hdigits]
  have hpoint {more : List Char} (hmore : more ∈ plainDigits) :
      (if Decimal.areDigits more = true then some more else none) = some more := if_pos hmore
  obtain rfl | he := mem_optional.1 he
  · obtain rfl | hf := mem_optional.1 hf
    · exact ⟨_, rfl⟩
    · obtain ⟨more, hmore, rfl⟩ := mem_fractions.1 hf
      simp only [hpoint hmore]
      exact ⟨_, rfl⟩
  · obtain ⟨first, sign, after, hafter, -, hsign, rfl⟩ := mem_exponents.1 he
    obtain ⟨n, hn⟩ := exists_readExponent? hsign hafter
    simp only [hn]
    obtain rfl | hf := mem_optional.1 hf
    · exact ⟨_, rfl⟩
    · obtain ⟨more, hmore, rfl⟩ := mem_fractions.1 hf
      simp only [hpoint hmore]
      exact ⟨_, rfl⟩

/-- Every numeral is a decimal that can be read. Without its underscores it is
of the form that the reader of decimals takes. -/
theorem exists_readFloat?_of_mem {t : List Char} (h : t ∈ numerals) :
    ∃ x, Decimal.readFloat? (t.filter (· != '_')) = some x := by
  obtain ⟨_, hw, _, hrest, ht⟩ := Language.mem_mul.1 (filter_mem_decimals h)
  obtain ⟨f, hf, e, he, rfl⟩ := Language.mem_mul.1 hrest
  obtain ⟨sign, hsign, ds, hds, rfl⟩ := Language.mem_mul.1 hw
  obtain ⟨d, hd⟩ := exists_readUnsigned? hds hf he
  rw [← ht, List.append_assoc sign, ← List.append_assoc ds]
  obtain rfl | rfl := mem_optional.1 hsign
  · obtain ⟨c, cs, rfl, hall⟩ := mem_plainDigits.1 hds
    have hc := (List.forall_mem_cons.1 hall).1
    rw [List.nil_append]
    unfold Decimal.readFloat?
    split
    · next heq => exact absurd (List.cons.inj heq).1 (ne_of_isDigit hc rfl)
    · exact ⟨_, congrArg (Option.map _) hd⟩
  · exact ⟨_, congrArg (Option.map _) hd⟩

-- ====================================================================== numbers

/-- A numeral without fraction and exponent that stands for a whole number of
64 bits. -/
def IsInteger (t : List Char) : Prop :=
  t ∈ wholes digits ∧ -2 ^ 63 ≤ signedValue t ∧ signedValue t ≤ 2 ^ 63 - 1

/-- A numeral has neither fraction nor exponent if it is a whole part. -/
theorem isWhole_iff {cs : List Char} (h : Starts cs) :
    (split cs).1.isWhole = true ↔ (split cs).1.text ∈ wholes digits := by
  have hwhole := whole_mem_wholes h
  rw [isWhole, Bool.and_eq_true, List.isEmpty_iff, List.isEmpty_iff]
  constructor
  · rintro ⟨hfraction, hexponent⟩
    rwa [text, hfraction, hexponent, List.append_nil, List.append_nil]
  · intro hmem
    -- the text is all that the whole part takes, so the other parts are empty
    obtain ⟨sign, afterSign, hsign, htaken, -⟩ := splitSign_append_of_mem hmem (split cs).2
    rw [split_eq] at hsign
    have hstarts : (split cs).1.whole = sign ++ (splitDigits afterSign).1 := by
      simp only [split, hsign]
    have hlength := congrArg List.length (hstarts.trans htaken)
    simp only [text, List.length_append] at hlength
    constructor
    · exact List.length_eq_zero_iff.1 (by omega)
    · exact List.length_eq_zero_iff.1 (by omega)

/-- What a numeral stands for. -/
theorem value_split {cs : List Char} (h : Starts cs) :
    let n := (split cs).1
    (IsInteger n.text → n.value = .int (signedValue n.text))
      ∧ (¬ IsInteger n.text → ∃ x, Decimal.readFloat? (n.text.filter (· != '_')) = some x
        ∧ n.value = .float x) := by
  intro n
  have hmem : n.text ∈ numerals := text_mem_numerals h
  have hwhole : n.isWhole = true ↔ n.text ∈ wholes digits := isWhole_iff h
  have hrange (v : Int) : Number.isInt64 v = true ↔ -2 ^ 63 ≤ v ∧ v ≤ 2 ^ 63 - 1 := by
    simp only [Number.isInt64, Bool.and_eq_true, decide_eq_true_eq]
    omega
  have hinteger : (n.isWhole && Number.isInt64 (wholeValue (n.text.filter (· != '_')))) = true
      ↔ IsInteger n.text := by
    rw [Bool.and_eq_true, hwhole, hrange, IsInteger]
    exact and_congr_right fun hw => by rw [wholeValue_eq_of_mem hw]
  refine ⟨fun hint => ?_, fun hint => ?_⟩
  · rw [value, if_pos (hinteger.2 hint), wholeValue_eq_of_mem hint.1]
  · obtain ⟨x, hx⟩ := exists_readFloat?_of_mem hmem
    refine ⟨x, hx, ?_⟩
    rw [value, if_neg (mt hinteger.1 hint), hx, Option.getD_some]

end Numeral

-- =============================================================== whole sources

open Numeral (Starts numerals IsInteger signedValue)

/-- Where a numeral comes next, it is a lexeme. -/
theorem ofChars_numeral {atLineStart : Bool} {c : Char} {cs : List Char} (h : Starts (c :: cs)) :
    isSpace c = false
      ∧ Lexeme.ofChars atLineStart c cs = .ok (Lexeme.numeral (c :: cs)) := by
  obtain hc | ⟨rfl, hnext⟩ := h
  · have hne {a : Char} (ha : a.isDigit = false) : c ≠ a := Numeral.ne_of_isDigit hc ha
    refine ⟨?_, ?_⟩
    · simp [isSpace, hne]
    · simp [Lexeme.ofChars, hne, hc]
  · exact ⟨rfl, by rw [Lexeme.ofChars_minus, if_pos hnext]⟩

/-- Where a digit, or a minus sign and a digit, stand at the front of a token,
the token is the longest numeral that stands there. It is a whole number if it
has neither fraction nor exponent and its value has 64 bits, and otherwise the
double that is read without the underscores. -/
theorem ofSource_numeral {source : String} {tokens : List Token} {position : Nat}
    {gap cs : List Char} (hgap : gap.all isSpace = true) (hstarts : Starts cs)
    (hreaches : Reaches source.toList tokens position (gap ++ cs)) :
    ∃ t rest value, cs = t ++ rest ∧ t ∈ numerals
      ∧ (∀ u ∈ numerals, u <+: cs → u.length ≤ t.length)
      ∧ (IsInteger t → value = .int (signedValue t))
      ∧ (¬ IsInteger t →
        ∃ x, Decimal.readFloat? (t.filter (· != '_')) = some x ∧ value = .float x)
      ∧ let start := position + width gap
        let token : Token := ⟨.number value, ⟨start, start + width t⟩⟩
        Reaches source.toList (tokens ++ [token]) (start + width t) rest
          ∧ ∀ comments ts, ofSourceKeeping comments source = .ok ts → token.saturate ∈ ts := by
  obtain ⟨hint, hfloat⟩ := Numeral.value_split hstarts
  refine ⟨_, _, _, (Numeral.split_eq cs).symm, Numeral.text_mem_numerals hstarts, ?_, hint, hfloat,
    ?_⟩
  · rintro u hu ⟨more, rfl⟩
    exact (Numeral.isPrefix_text_of_mem hu more).length_le
  · cases cs with
    | nil => cases hstarts
    | cons c cs =>
      obtain ⟨hspace, hlexeme⟩ := ofChars_numeral hstarts
      have hmade := hreaches.lexeme hgap hspace hlexeme
      refine ⟨hmade, fun comments ts hts => ?_⟩
      exact hmade.saturate_mem hts List.mem_concat_self (Bool.or_true comments)

/-- The least whole number of 64 bits, and a point that no digit follows: the
numeral ends before the point. -/
theorem ofSource_numeral_least :
    let source := "-9223372036854775808.x"
    Starts source.toList
      ∧ ofSource source = .ok [⟨.number (.int (-9223372036854775808)), ⟨0, 20⟩⟩,
        ⟨.punctuation '.', ⟨20, 21⟩⟩, ⟨.identifier "x", ⟨21, 22⟩⟩, ⟨.endOfInput, ⟨22, 22⟩⟩]
      ∧ ∃ t rest, source.toList = t ++ rest ∧ t ∈ numerals
        ∧ (∀ u ∈ numerals, u <+: source.toList → u.length ≤ t.length) ∧ width t = 20 := by
  intro source
  have hstarts : Starts "-9223372036854775808.x".toList := by
    change ('-').isDigit = true ∨ '-' = '-' ∧ Numeral.startsWithDigit _ = true
    exact .inr ⟨rfl, rfl⟩
  have hwidth : width source.toList ≤ Span.maxOffset := by decide
  have hscan : scan [] 0 "-9223372036854775808.x".toList
      = .ok [⟨.number (.int (-9223372036854775808)), ⟨0, 20⟩⟩, ⟨.punctuation '.', ⟨20, 21⟩⟩,
        ⟨.identifier "x", ⟨21, 22⟩⟩, ⟨.endOfInput, ⟨22, 22⟩⟩] := by
    refine scan_next [] rfl rfl rfl rfl rfl ?_
    refine scan_next [] rfl rfl rfl rfl rfl ?_
    exact scan_next [] rfl rfl rfl rfl rfl (scan_nil 22)
  obtain ⟨t, rest, value, hsource, hmem, hlongest, -, -, hmade, -⟩ :=
    @ofSource_numeral source [] 0 [] source.toList rfl hstarts .start
  have htokens : ofSource source = .ok [⟨.number (.int (-9223372036854775808)), ⟨0, 20⟩⟩,
      ⟨.punctuation '.', ⟨20, 21⟩⟩, ⟨.identifier "x", ⟨21, 22⟩⟩, ⟨.endOfInput, ⟨22, 22⟩⟩] := by
    rw [ofSource_eq_scan hwidth, hscan]
    rfl
  refine ⟨hstarts, htokens, t, rest, hsource, hmem, hlongest, ?_⟩
  -- only one of the tokens is a number
  have htoken := hmade.mem_of_ofSource hwidth htokens List.mem_concat_self rfl
  have hboth : value = .int (-9223372036854775808) ∧ width t = 20 := by simpa using htoken
  exact hboth.2

end UiScript.Token
