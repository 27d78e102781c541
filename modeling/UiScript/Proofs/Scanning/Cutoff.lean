/-
Lexemes do not need what comes after them. If a text is cut off somewhere
behind its first lexeme, the lexeme stays what it is: a word, a symbol, a
numeral or a line comment that stopped before something stops at the end of
the text just as well, and a string literal or a block comment that was
closed stays closed.

The one exception is an equals sign. Cut off, what starts like a block
comment may be one.

# The argument

Each reader is given a text in two pieces, and leaves a rest that ends with
the second piece; so it took nothing from there, and what it looked at there
can only have kept it from taking more (`splitDigitsFrom_left`,
`dropWhile_cut`).

# Main statements

* `Numeral.split_cut`, `splitBodyFrom_cut`, `blockComment_cut`: the readers.
* `ofChars_cut`: the lexeme of a text that is cut off behind it.
* `ofChars_anywhere`: whether a line begins does not matter.
-/
import UiScript.Proofs.Scanning.LineBreak

namespace UiScript

namespace Token

variable {ds rest : List Char}

-- ================================================================== prefixes

/-- What leaves a text as it is takes nothing of it. -/
theorem nothing_taken {taken : List Char} (h : taken ++ (rest ++ ds) = ds) :
    taken = [] ∧ rest = [] := by
  rw [← List.append_assoc] at h
  exact List.append_eq_nil_iff.1 (List.append_left_eq_self.1 h)

/-- What leaves the same behind, but for the second piece. -/
theorem pair_cut {α : Type} {a b : α} (cs : List Char) (h : (a, cs ++ ds) = (b, rest ++ ds)) :
    (a, cs) = (b, rest) := by
  obtain ⟨rfl, hrest⟩ := Prod.mk.inj h
  rw [List.append_cancel_right hrest]

/-- If the rest ends with the second piece, the test stopped in the first one. -/
theorem dropWhile_cut {p : Char → Bool} {cs : List Char}
    (h : (cs ++ ds).dropWhile p = rest ++ ds) :
    (cs ++ ds).takeWhile p = cs.takeWhile p ∧ cs.dropWhile p = rest := by
  induction cs with
  | nil =>
    have hall := List.takeWhile_append_dropWhile (p := p) (l := ds)
    rw [List.nil_append] at h ⊢
    rw [h] at hall
    obtain ⟨htake, hrest⟩ := nothing_taken hall
    exact ⟨htake, hrest.symm⟩
  | cons c cs ih =>
    by_cases hc : p c = true
    · rw [List.cons_append, List.dropWhile_cons_of_pos hc] at h
      obtain ⟨htake, hdrop⟩ := ih h
      rw [List.cons_append, List.takeWhile_cons_of_pos hc, List.takeWhile_cons_of_pos hc,
        List.dropWhile_cons_of_pos hc, htake]
      exact ⟨rfl, hdrop⟩
    · rw [List.cons_append, List.dropWhile_cons_of_neg hc, ← List.cons_append] at h
      rw [List.cons_append, List.takeWhile_cons_of_neg hc, List.takeWhile_cons_of_neg hc,
        List.dropWhile_cons_of_neg hc]
      exact ⟨rfl, List.append_cancel_right h⟩

-- ================================================================== numerals

namespace Numeral

variable {run cs digits : List Char}

/-- What has been passed stays. -/
theorem exists_splitDigitsFrom (run cs : List Char) :
    ∃ more, (splitDigitsFrom run cs).1 = run.reverse ++ more := by
  fun_induction splitDigitsFrom run cs with
  | case1 run => exact ⟨[], by simp⟩
  | case2 run c cs _ ih =>
    obtain ⟨more, hmore⟩ := ih
    exact ⟨c :: more, by simpa using hmore⟩
  | case3 run c cs => exact ⟨[], by simp⟩

/-- A text of which all is left does not start with a digit. There was nothing
to be taken, so nothing would have been taken from any other text that starts
alike. -/
theorem splitDigitsFrom_left (h : splitDigitsFrom run ds = (digits, rest ++ ds)) :
    digits = run.reverse ∧ rest = [] ∧ startsWithDigit ds = false := by
  obtain ⟨more, hmore⟩ := exists_splitDigitsFrom run ds
  rw [h] at hmore
  have hall := splitDigitsFrom_eq run ds
  rw [h, hmore, List.append_assoc] at hall
  obtain ⟨rfl, rfl⟩ := nothing_taken (List.append_cancel_left hall)
  rw [List.append_nil] at hmore
  refine ⟨hmore, rfl, ?_⟩
  cases ds with
  | nil => rfl
  | cons c cs =>
    cases hdigit : startsWithDigit (c :: cs) with
    | false => rfl
    | true =>
      -- a digit would have been passed
      have hc : c.isDigit = true := hdigit
      rw [splitDigitsFrom, if_pos (by simp [hc])] at h
      obtain ⟨more', hmore'⟩ := exists_splitDigitsFrom (c :: run) cs
      rw [h, hmore] at hmore'
      simp at hmore'

/-- A run of digits that left the second piece alone is found without it. -/
theorem splitDigitsFrom_cut (h : splitDigitsFrom run (cs ++ ds) = (digits, rest ++ ds)) :
    splitDigitsFrom run cs = (digits, rest) := by
  induction cs generalizing run with
  | nil =>
    obtain ⟨rfl, rfl, -⟩ := splitDigitsFrom_left h
    rfl
  | cons c cs ih =>
    rw [List.cons_append, splitDigitsFrom] at h
    rw [splitDigitsFrom]
    split at h
    · next hc =>
      have hc' : (c.isDigit || (c == '_' && startsWithDigit cs)) = true := by
        cases cs with
        | nil =>
          obtain ⟨-, -, hnone⟩ := splitDigitsFrom_left h
          rwa [List.nil_append, show startsWithDigit ds = false from hnone] at hc
        | cons d cs => exact hc
      rw [if_pos hc']
      exact ih h
    · next hc =>
      have hc' : ¬ (c.isDigit || (c == '_' && startsWithDigit cs)) = true := by
        cases cs with
        | nil =>
          intro hdigit
          rw [startsWithDigit, Bool.and_false, Bool.or_false] at hdigit
          exact hc (by rw [hdigit, Bool.true_or])
        | cons d cs => exact hc
      rw [if_neg hc']
      rw [← List.cons_append] at h
      exact pair_cut _ h

theorem splitDigits_cut (h : splitDigits (cs ++ ds) = (digits, rest ++ ds)) :
    splitDigits cs = (digits, rest) := splitDigitsFrom_cut h

/-- Digits are taken where there are any. -/
theorem startsWithDigit_of_left (h : (splitDigits ds).2 = rest ++ ds) :
    startsWithDigit ds = false := by
  have hall : splitDigitsFrom [] ds = ((splitDigits ds).1, rest ++ ds) := Prod.ext rfl h
  obtain ⟨-, -, hnone⟩ := splitDigitsFrom_left hall
  exact hnone

/-- A digit that is taken stands before the cut. -/
theorem startsWithDigit_cut
    (h : startsWithDigit (cs ++ ds) = true → ∃ rest, (splitDigits (cs ++ ds)).2 = rest ++ ds) :
    startsWithDigit (cs ++ ds) = startsWithDigit cs := by
  cases cs with
  | nil =>
    cases hnone : startsWithDigit ds with
    | false => exact hnone
    | true =>
      obtain ⟨rest, hrest⟩ := h hnone
      rw [List.nil_append] at hrest
      rw [startsWithDigit_of_left hrest] at hnone
      cases hnone
  | cons c cs => rfl

/-- A fraction that left the second piece alone is found without it. It may
have looked there for a digit behind the dot, and found none. -/
theorem splitFraction_cut {fraction : List Char}
    (h : splitFraction (cs ++ ds) = (fraction, rest ++ ds)) :
    splitFraction cs = (fraction, rest) := by
  cases cs with
  | nil =>
    have hall := splitFraction_eq ds
    rw [show splitFraction ds = _ from h] at hall
    obtain ⟨rfl, rfl⟩ := nothing_taken hall
    rfl
  | cons c cs =>
    by_cases hc : c = '.'
    · subst hc
      rw [List.cons_append, splitFraction] at h
      rw [splitFraction]
      have hdigit : startsWithDigit (cs ++ ds) = startsWithDigit cs := by
        refine startsWithDigit_cut fun htrue => ?_
        rw [if_pos htrue] at h
        exact ⟨rest, (Prod.mk.inj h).2⟩
      rw [hdigit] at h
      split
      · next htrue =>
        rw [if_pos htrue] at h
        obtain ⟨hfraction, hrest⟩ := Prod.mk.inj h
        rw [splitDigits_cut (Prod.ext rfl hrest)]
        exact congrArg (·, rest) hfraction
      · next hfalse =>
        rw [if_neg hfalse, ← List.cons_append] at h
        exact pair_cut _ h
    · have hnone : splitFraction (c :: cs) = ([], c :: cs) := by simp [splitFraction, hc]
      have hnone' : splitFraction (c :: cs ++ ds) = ([], c :: cs ++ ds) := by
        simp [splitFraction, hc]
      rw [hnone'] at h
      rw [hnone]
      exact pair_cut _ h

/-- An exponent does not end with its first character. -/
theorem splitExponent_of_left {c : Char} {exponent : List Char}
    (h : splitExponent (c :: ds) = (exponent, rest ++ ds)) :
    splitExponent [c] = (exponent, rest) := by
  cases ds with
  | nil => simpa using h
  | cons d ds =>
    rw [splitExponent] at h
    split at h
    · split at h
      · -- no text is left whole behind its first character
        have hall := congrArg List.length (splitDigits_eq ds)
        rw [(Prod.mk.inj h).2] at hall
        simp only [List.length_append, List.length_cons] at hall
        omega
      · split at h
        · next hdigit =>
          have hnone := startsWithDigit_of_left (Prod.mk.inj h).2
          rw [show startsWithDigit (d :: ds) = d.isDigit from rfl, hdigit] at hnone
          cases hnone
        · exact pair_cut [c] h
    · exact pair_cut [c] h

/-- An exponent that left the second piece alone is found without it. -/
theorem splitExponent_cut {exponent : List Char}
    (h : splitExponent (cs ++ ds) = (exponent, rest ++ ds)) :
    splitExponent cs = (exponent, rest) := by
  match cs with
  | [] =>
    have hall := splitExponent_eq ds
    rw [show splitExponent ds = _ from h] at hall
    obtain ⟨rfl, rfl⟩ := nothing_taken hall
    rfl
  | [c] => exact splitExponent_of_left h
  | c :: d :: cs =>
    rw [List.cons_append, List.cons_append, splitExponent] at h
    rw [splitExponent]
    split
    · next hmark =>
      rw [if_pos hmark] at h
      -- behind a sign a digit is seen in the first piece or in neither
      have hsigned : ((d = '+' ∨ d = '-') ∧ startsWithDigit (cs ++ ds) = true)
          ↔ ((d = '+' ∨ d = '-') ∧ startsWithDigit cs = true) := by
        refine and_congr_right fun hsign => ?_
        rw [startsWithDigit_cut fun htrue => ?_]
        rw [if_pos ⟨hsign, htrue⟩] at h
        exact ⟨rest, (Prod.mk.inj h).2⟩
      split
      · next hthis =>
        rw [if_pos (hsigned.2 hthis)] at h
        obtain ⟨hexponent, hrest⟩ := Prod.mk.inj h
        rw [splitDigits_cut (Prod.ext rfl hrest), ← hexponent]
      · next hthis =>
        rw [if_neg fun hother => hthis (hsigned.1 hother)] at h
        split
        · next hdigit =>
          rw [if_pos hdigit] at h
          obtain ⟨hexponent, hrest⟩ := Prod.mk.inj h
          have hdigits : splitDigits (d :: cs ++ ds)
              = ((splitDigits (d :: (cs ++ ds))).1, rest ++ ds) := Prod.ext rfl hrest
          rw [splitDigits_cut hdigits, ← hexponent]
        · next hdigit =>
          rw [if_neg hdigit] at h
          exact pair_cut (c :: d :: cs) h
    · next hmark =>
      rw [if_neg hmark] at h
      exact pair_cut (c :: d :: cs) h

/-- A sign is told by the first character, which is in the first piece. -/
theorem splitSign_cut {c : Char} (cs : List Char) :
    splitSign (c :: cs ++ ds) = ((splitSign (c :: cs)).1, (splitSign (c :: cs)).2 ++ ds) := by
  by_cases hc : c = '-'
  · subst hc
    rfl
  · simp [splitSign, hc]

/-- What is left behind the digits of a numeral that ends before the cut. -/
theorem splitDigits_of_split {n : Numeral} {c : Char}
    (h : split (c :: cs ++ ds) = (n, rest ++ ds)) :
    ∃ after, (splitDigits ((splitSign (c :: cs)).2 ++ ds)).2 = after ++ ds := by
  have hfraction := splitFraction_eq (splitDigits ((splitSign (c :: cs)).2 ++ ds)).2
  have hexponent := splitExponent_eq
    (splitFraction (splitDigits ((splitSign (c :: cs)).2 ++ ds)).2).2
  simp only [split, splitSign_cut] at h
  rw [(Prod.mk.inj h).2, ← List.append_assoc] at hexponent
  rw [← hexponent, ← List.append_assoc] at hfraction
  exact ⟨_, hfraction.symm⟩

/-- A numeral that ends before the cut. -/
theorem split_cut {n : Numeral} {c : Char} (h : split (c :: cs ++ ds) = (n, rest ++ ds)) :
    split (c :: cs) = (n, rest) := by
  obtain ⟨after, hafter⟩ := splitDigits_of_split h
  have hdigits := splitDigits_cut (Prod.ext rfl hafter)
  simp only [split, splitSign_cut] at h
  simp only [split, hdigits]
  rw [hafter] at h
  rcases hfraction : splitFraction (after ++ ds) with ⟨fraction, afterFraction⟩
  rcases hexponent : splitExponent afterFraction with ⟨exponent, left⟩
  simp only [hfraction, hexponent] at h
  obtain ⟨rfl, rfl⟩ := Prod.mk.inj h
  have hleft : exponent ++ rest ++ ds = afterFraction := by
    have hall := splitExponent_eq afterFraction
    rwa [hexponent, ← List.append_assoc] at hall
  subst hleft
  rw [splitFraction_cut hfraction, splitExponent_cut hexponent]

end Numeral

-- =========================================================== string literals

/-- A body and its closing quote are taken. -/
theorem splitBodyFrom_rest_lt {quote : Char} {body cs b : List Char}
    (h : StringLiteral.splitBodyFrom quote body cs = some (b, rest)) : rest.length < cs.length := by
  fun_induction StringLiteral.splitBodyFrom quote body cs with
  | case1 => cases h
  | case2 =>
    cases h
    simp
  | case3 => cases h
  | case4 body d cs ih =>
    have := ih h
    simp only [List.length_cons]
    omega
  | case5 body d cs =>
    cases h
    simp
  | case6 body c d cs _ _ ih => exact Nat.lt_trans (ih h) (by simp)

/-- Nothing closes a literal of which all is left. -/
theorem splitBodyFrom_left {quote : Char} {body b : List Char} :
    StringLiteral.splitBodyFrom quote body ds ≠ some (b, rest ++ ds) := by
  intro h
  have := splitBodyFrom_rest_lt h
  rw [List.length_append] at this
  omega

/-- A literal that ends with its first character. -/
theorem splitBodyFrom_of_left {quote c : Char} {body b : List Char}
    (h : StringLiteral.splitBodyFrom quote body (c :: ds) = some (b, rest ++ ds)) :
    StringLiteral.splitBodyFrom quote body [c] = some (b, rest) := by
  cases ds with
  | nil => simpa using h
  | cons d ds =>
    rw [StringLiteral.splitBodyFrom] at h
    split at h
    · have := splitBodyFrom_rest_lt h
      rw [List.length_append, List.length_cons] at this
      omega
    · split at h
      · next hquote =>
        rw [StringLiteral.splitBodyFrom, if_pos hquote]
        exact congrArg some (pair_cut [] (Option.some.inj h))
      · exact absurd h splitBodyFrom_left

/-- A string literal that was closed in the first piece is closed there. -/
theorem splitBodyFrom_cut {quote : Char} {body cs b : List Char}
    (h : StringLiteral.splitBodyFrom quote body (cs ++ ds) = some (b, rest ++ ds)) :
    StringLiteral.splitBodyFrom quote body cs = some (b, rest) := by
  match cs with
  | [] => exact absurd h splitBodyFrom_left
  | [c] => exact splitBodyFrom_of_left h
  | c :: d :: cs =>
    rw [List.cons_append, List.cons_append, StringLiteral.splitBodyFrom] at h
    rw [StringLiteral.splitBodyFrom]
    split
    · next hc =>
      rw [if_pos hc] at h
      exact splitBodyFrom_cut h
    · next hc =>
      rw [if_neg hc] at h
      split
      · next hquote =>
        rw [if_pos hquote] at h
        exact congrArg some (pair_cut (d :: cs) (Option.some.inj h))
      · next hquote =>
        rw [if_neg hquote, ← List.cons_append] at h
        exact splitBodyFrom_cut h
termination_by cs.length

namespace Lexeme

-- ============================================================ block comments

/-- A marker that there is room for is looked for in the first piece alone. -/
theorem isPrefixOf_cut {marker cs : List Char} (h : marker.length ≤ cs.length) :
    marker.isPrefixOf (cs ++ ds) = marker.isPrefixOf cs := by
  induction marker generalizing cs with
  | nil => simp
  | cons m ms ih =>
    cases cs with
    | nil => cases h
    | cons c cs => simp [List.isPrefixOf, ih (Nat.le_of_succ_le_succ h)]

/-- Whether a marker stands somewhere is seen from as many characters and one
more. -/
theorem isMarked_cut {marker cs : List Char} (h : marker.length < cs.length) :
    isMarked marker (cs ++ ds) = isMarked marker cs := by
  unfold isMarked
  rw [isPrefixOf_cut (Nat.le_of_lt h), List.drop_append_of_le_length (Nat.le_of_lt h)]
  cases hdrop : cs.drop marker.length with
  | nil => exact absurd (List.drop_eq_nil_iff.1 hdrop) (Nat.not_le.2 h)
  | cons c more => rfl

/-- A marker that ends before the cut. -/
theorem isMarked_of_cut {marker cs : List Char} (h : isMarked marker (cs ++ ds) = true)
    (hlength : marker.length ≤ cs.length) : isMarked marker cs = true := by
  rcases Nat.lt_or_eq_of_le hlength with hlt | heq
  · rwa [isMarked_cut hlt] at h
  · unfold isMarked at h ⊢
    rw [isPrefixOf_cut hlength, Bool.and_eq_true] at h
    rw [h.1, List.drop_eq_nil_of_le (Nat.le_of_eq heq.symm)]
    rfl

/-- What follows the body of a comment starts with a closing marker. -/
theorem splitCommentFrom_closing {passed cs body closing : List Char}
    (h : splitCommentFrom passed cs = some (body, closing)) :
    isMarked closingMarker closing = true ∧ closing.length < cs.length := by
  fun_induction splitCommentFrom passed cs with
  | case1 => cases h
  | case2 passed c cs hc =>
    cases h
    simp only [Bool.and_eq_true] at hc
    exact ⟨hc.2, by simp⟩
  | case3 passed c cs hc ih =>
    obtain ⟨hmarked, hlt⟩ := ih h
    exact ⟨hmarked, Nat.lt_trans hlt (by simp)⟩

/-- A block comment that was closed in the first piece is closed there. The
closing marker must lie in it as a whole, for cut off inside of it the comment
is open. -/
theorem splitCommentFrom_cut {passed cs body closing : List Char}
    (h : splitCommentFrom passed (cs ++ ds) = some (body, closing ++ ds))
    (hlength : closingMarker.length ≤ closing.length) :
    splitCommentFrom passed cs = some (body, closing) := by
  induction cs generalizing passed with
  | nil =>
    obtain ⟨-, hlt⟩ := splitCommentFrom_closing h
    rw [List.length_append, List.nil_append] at hlt
    omega
  | cons c cs ih =>
    rw [List.cons_append, splitCommentFrom] at h
    rw [splitCommentFrom]
    split at h
    · next hc =>
      obtain ⟨hbody, hclosing⟩ := Prod.mk.inj (Option.some.inj h)
      obtain rfl := List.append_cancel_right hclosing
      simp only [Bool.and_eq_true] at hc
      rw [if_pos (by rw [hc.1, isMarked_of_cut hc.2 hlength]; rfl), hbody]
    · next hc =>
      obtain ⟨-, hlt⟩ := splitCommentFrom_closing h
      rw [List.length_append, List.length_append] at hlt
      rw [isMarked_cut (by omega)] at hc
      rw [if_neg hc]
      exact ih h

/-- The line of a closing marker holds the marker. -/
theorem length_le_of_isMarked {closing : List Char} (h : isMarked closingMarker closing = true) :
    closingMarker.length ≤ (closing.takeWhile (· != '\n')).length := by
  have hbreak : ∀ c ∈ closingMarker, (c != '\n') = true := by simp [closingMarker]
  obtain ⟨us, rfl⟩ := List.isPrefixOf_iff_prefix.1 (Bool.and_eq_true_iff.1 h).1
  rw [List.takeWhile_append_of_pos hbreak, List.length_append]
  exact Nat.le_add_right ..

/-- A block comment that left the second piece alone is one without it. -/
theorem blockComment_cut {cs : List Char} {x : Lexeme}
    (h : blockComment (cs ++ ds) = .ok (x.followedBy ds)) : blockComment cs = .ok x := by
  simp only [blockComment] at h ⊢
  split at h
  · cases h
  · next body closing hsplit =>
    obtain ⟨kind, text, rest⟩ := x
    simp only [followedBy, Except.ok.injEq, Lexeme.mk.injEq] at h
    obtain ⟨rfl, rfl, hrest⟩ := h
    obtain ⟨hmarked, -⟩ := splitCommentFrom_closing hsplit
    have hlength := length_le_of_isMarked hmarked
    -- the last line ends with the second piece, and so does what stands before it
    obtain ⟨closing', rfl⟩ : ∃ closing', closing = closing' ++ ds := by
      refine ⟨closing.takeWhile (· != '\n') ++ rest, ?_⟩
      rw [List.append_assoc, ← hrest, List.takeWhile_append_dropWhile]
    obtain ⟨htakeLast, hdropLast⟩ := dropWhile_cut hrest
    have hbody : (cs ++ ds).dropWhile (· != '\n') = (body ++ closing') ++ ds := by
      rw [List.append_assoc]
      exact splitCommentFrom_eq hsplit
    obtain ⟨htakeFirst, hdropFirst⟩ := dropWhile_cut hbody
    have hsplit' : splitCommentFrom [] (cs.dropWhile (· != '\n')) = some (body, closing') := by
      rw [hbody] at hsplit
      rw [hdropFirst]
      refine splitCommentFrom_cut hsplit (Nat.le_trans hlength ?_)
      rw [htakeLast]
      exact (List.takeWhile_sublist _).length_le
    simp only [hsplit', htakeFirst, htakeLast, hdropLast]

-- ================================================================== lexemes

theorem doubleQuoted_cut {cs : List Char} {x : Lexeme}
    (h : doubleQuoted (cs ++ ds) = .ok (x.followedBy ds)) : doubleQuoted cs = .ok x := by
  unfold doubleQuoted at h ⊢
  split at h
  · cases h
  · next body left hsplit =>
    split at h
    · cases h
    · next value hvalue =>
      obtain ⟨kind, text, rest⟩ := x
      simp only [followedBy, Except.ok.injEq, Lexeme.mk.injEq] at h
      obtain ⟨rfl, rfl, rfl⟩ := h
      have hsplit' : StringLiteral.splitBody '\x22' cs = some (body, rest) :=
        splitBodyFrom_cut hsplit
      simp only [hsplit', hvalue]

theorem singleQuoted_cut {cs : List Char} {x : Lexeme}
    (h : singleQuoted (cs ++ ds) = .ok (x.followedBy ds)) : singleQuoted cs = .ok x := by
  unfold singleQuoted at h ⊢
  split at h
  · cases h
  · next body left hsplit =>
    obtain ⟨kind, text, rest⟩ := x
    simp only [followedBy, Except.ok.injEq, Lexeme.mk.injEq] at h
    obtain ⟨rfl, rfl, rfl⟩ := h
    have hsplit' : StringLiteral.splitBody '\x27' cs = some (body, rest) :=
      splitBodyFrom_cut hsplit
    rw [hsplit']

/-- A name that follows stands before the cut. -/
theorem nameFollows_cut {cs : List Char}
    (h : nameFollows (cs ++ ds) = true → (cs ++ ds).dropWhile continuesName = rest ++ ds) :
    nameFollows (cs ++ ds) = nameFollows cs := by
  cases cs with
  | cons c cs => rfl
  | nil =>
    cases ds with
    | nil => rfl
    | cons d ds =>
      cases hname : nameFollows (d :: ds) with
      | false => exact hname
      | true =>
        have hd : continuesName d = true := by
          have hstarts : startsName d = true := hname
          simp only [startsName, Bool.or_eq_true] at hstarts
          simp only [continuesName, Char.isAlphanum, Bool.or_eq_true]
          exact hstarts.imp_left Or.inl
        -- the name would have been taken
        have hrest : ([] ++ d :: ds).dropWhile continuesName = rest ++ d :: ds := h hname
        obtain ⟨htake, -⟩ := dropWhile_cut hrest
        rw [List.nil_append, List.takeWhile_cons_of_pos hd] at htake
        cases htake

/-- The marker that opens a block comment stands before the cut. -/
theorem isMarked_of_blockComment {cs : List Char} {x : Lexeme}
    (h : blockComment (cs ++ ds) = .ok (x.followedBy ds))
    (hmarked : isMarked openingMarker (cs ++ ds) = true) :
    isMarked openingMarker cs = true := by
  have hbreak : ∀ c ∈ openingMarker, (c != '\n') = true := by simp [openingMarker]
  have htext := blockComment_text_append h
  simp only [blockComment] at h
  split at h
  · cases h
  · next body closing hsplit =>
    obtain ⟨us, hus⟩ := List.isPrefixOf_iff_prefix.1 (Bool.and_eq_true_iff.1 hmarked).1
    obtain ⟨kind, text, rest⟩ := x
    simp only [followedBy, Except.ok.injEq, Lexeme.mk.injEq] at h htext
    rw [← List.append_assoc] at htext
    have hcs : text ++ rest = cs := List.append_cancel_right htext
    refine isMarked_of_cut hmarked ?_
    rw [← hcs, ← h.2.1, ← hus, List.takeWhile_append_of_pos hbreak]
    simp only [List.length_append]
    omega

/-- An equals sign starts a block comment or is a mark, which its line and
what follows tell. -/
theorem ofChars_equals (atLineStart : Bool) (cs : List Char) :
    ofChars atLineStart '=' cs
      = if (atLineStart && isMarked openingMarker ('=' :: cs)) = true then blockComment ('=' :: cs)
        else .ok ⟨.punctuation '=', ['='], cs⟩ := rfl

/-- A colon starts a symbol or is a mark, which the next character tells. -/
theorem ofChars_colon (atLineStart : Bool) (cs : List Char) :
    ofChars atLineStart ':' cs
      = if nameFollows cs = true then .ok (symbol cs) else .ok ⟨.punctuation ':', [':'], cs⟩ := rfl

/-- A minus sign starts a numeral or is a mark, which the next character
tells. -/
theorem ofChars_minus (atLineStart : Bool) (cs : List Char) :
    ofChars atLineStart '-' cs
      = if Numeral.startsWithDigit cs = true then .ok (numeral ('-' :: cs))
        else .ok ⟨.punctuation '-', ['-'], cs⟩ := rfl

/-- A lexeme that is no equals sign has the same form where the text is cut
off behind it. -/
theorem formOf_cut {atLineStart : Bool} {c : Char} {cs : List Char} {x : Lexeme}
    (h : ofChars atLineStart c (cs ++ ds) = .ok (x.followedBy ds))
    (hx : x.kind ≠ .punctuation '=') :
    formOf atLineStart c (cs ++ ds) = formOf atLineStart c cs := by
  -- three questions tell a form, and each looks ahead; the lexeme that was read shows that none
  -- of them saw the second piece
  have hcomment : (decide (c = '=') && atLineStart && isMarked openingMarker (c :: (cs ++ ds)))
      = (decide (c = '=') && atLineStart && isMarked openingMarker (c :: cs)) := by
    by_cases hc : c = '='
    · subst hc
      rw [ofChars_equals] at h
      split at h
      · next hboth =>
        obtain ⟨hstart, hmarked⟩ := Bool.and_eq_true_iff.1 hboth
        have hcut : isMarked openingMarker ('=' :: cs) = true := isMarked_of_blockComment h hmarked
        rw [hmarked, hcut]
      · exact absurd (congrArg Lexeme.kind (Except.ok.inj h)).symm hx
    · rw [decide_eq_false hc, Bool.false_and, Bool.false_and, Bool.false_and]
  have hsymbol : (decide (c = ':') && nameFollows (cs ++ ds))
      = (decide (c = ':') && nameFollows cs) := by
    by_cases hc : c = ':'
    · subst hc
      have htaken : nameFollows (cs ++ ds) = true →
          (cs ++ ds).dropWhile continuesName = x.rest ++ ds := by
        intro hfollows
        rw [ofChars_colon, if_pos hfollows] at h
        exact congrArg Lexeme.rest (Except.ok.inj h)
      rw [nameFollows_cut htaken]
    · rw [decide_eq_false hc, Bool.false_and, Bool.false_and]
  have hnumeral : (decide (c = '-') && Numeral.startsWithDigit (cs ++ ds))
      = (decide (c = '-') && Numeral.startsWithDigit cs) := by
    by_cases hc : c = '-'
    · subst hc
      have htaken : Numeral.startsWithDigit (cs ++ ds) = true →
          ∃ rest, (Numeral.splitDigits (cs ++ ds)).2 = rest ++ ds := by
        intro hdigit
        rw [ofChars_minus, if_pos hdigit] at h
        exact Numeral.splitDigits_of_split (c := '-')
          (Prod.ext rfl (congrArg Lexeme.rest (Except.ok.inj h)))
      rw [Numeral.startsWithDigit_cut htaken]
    · rw [decide_eq_false hc, Bool.false_and, Bool.false_and]
  unfold formOf
  rw [hcomment, hsymbol, hnumeral]

/-- A lexeme of any form that left the second piece alone is read without it. -/
theorem Form.read_cut {form : Form} {c : Char} {cs : List Char} {x : Lexeme}
    (h : form.read c (cs ++ ds) = .ok (x.followedBy ds)) : form.read c cs = .ok x := by
  obtain ⟨kind, text, rest⟩ := x
  cases form with
  | lineComment =>
    simp only [Form.read, Lexeme.lineComment, followedBy, Except.ok.injEq, Lexeme.mk.injEq] at h
    obtain ⟨rfl, rfl, hrest⟩ := h
    obtain ⟨htake, hdrop⟩ := dropWhile_cut hrest
    rw [Form.read, Lexeme.lineComment, htake, hdrop]
  | blockComment => exact blockComment_cut h
  | doubleQuoted => exact doubleQuoted_cut h
  | singleQuoted => exact singleQuoted_cut h
  | symbol =>
    simp only [Form.read, Lexeme.symbol, followedBy, Except.ok.injEq, Lexeme.mk.injEq] at h
    obtain ⟨rfl, rfl, hrest⟩ := h
    obtain ⟨htake, hdrop⟩ := dropWhile_cut hrest
    rw [Form.read, Lexeme.symbol, htake, hdrop]
  | numeral =>
    simp only [Form.read, Lexeme.numeral, followedBy, Except.ok.injEq, Lexeme.mk.injEq] at h
    obtain ⟨rfl, rfl, hrest⟩ := h
    rw [Form.read, Lexeme.numeral, Numeral.split_cut (Prod.ext rfl hrest)]
    rfl
  | word =>
    simp only [Form.read, Lexeme.word, followedBy, Except.ok.injEq, Lexeme.mk.injEq] at h
    obtain ⟨rfl, rfl, hrest⟩ := h
    rw [← List.cons_append] at hrest ⊢
    obtain ⟨htake, hdrop⟩ := dropWhile_cut hrest
    rw [Form.read, Lexeme.word, htake, hdrop]
  | mark =>
    simp only [Form.read, followedBy, Except.ok.injEq, Lexeme.mk.injEq] at h
    obtain ⟨rfl, rfl, hrest⟩ := h
    rw [Form.read, List.append_cancel_right hrest]

/-- A lexeme that is no equals sign stays what it is where the text is cut off
behind it. Each form takes what it takes by looking ahead, and what it saw
there it sees at the end of the text as well. -/
theorem ofChars_cut {atLineStart : Bool} {c : Char} {cs : List Char} {x : Lexeme}
    (h : ofChars atLineStart c (cs ++ ds) = .ok (x.followedBy ds))
    (hx : x.kind ≠ .punctuation '=') : ofChars atLineStart c cs = .ok x := by
  have hform := formOf_cut h hx
  rw [ofChars_eq] at h ⊢
  rw [hform] at h
  exact Form.read_cut h

/-- Whether a line begins matters to comments and equals signs only. So a
token may be cut out of the middle of a line and still be the same. -/
theorem ofChars_anywhere {atLineStart : Bool} {c : Char} {cs : List Char} {x : Lexeme}
    (h : ofChars atLineStart c cs = .ok x) (hcomment : x.kind.isComment = false)
    (hx : x.kind ≠ .punctuation '=') (atLineStart' : Bool) : ofChars atLineStart' c cs = .ok x := by
  by_cases hc : c = '='
  · subst hc
    rw [ofChars_equals] at h
    split at h
    · unfold blockComment at h
      split at h
      · cases h
      · cases h
        cases hcomment
    · cases h
      exact absurd rfl hx
  · rw [← h]
    unfold ofChars
    rw [decide_eq_false hc, Bool.false_and, Bool.false_and, Bool.false_and, Bool.false_and]

end Lexeme

end Token

end UiScript
