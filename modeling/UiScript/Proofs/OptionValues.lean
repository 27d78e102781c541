/-
The values of options. A limit is written in decimal digits, perhaps with a
plus sign before them and with white space around the whole, and it is
positive and fits into 64 bits; a mode for colours is one of three words.
What a value is to be is told here by the characters it is made of, and the
two readers take these values and no others.

# The argument

A numeral begins with a plus sign or a digit and ends with a digit, and none
of these is white space. So trimming a value that is written as a limit
leaves the numeral, and on the other hand the value is what trimming leaves
of it with white space around.

# Main statements

* `limit?_eq_some_iff`: which values name a limit, and which limit.
* `colorMode?_eq_some_iff`: which values name a mode, and which one.
-/
import UiScript.CommandLine.Options
import UiScript.Proofs.Text.Digits
import UiScript.Proofs.Text.Trimming

namespace UiScript

open Text (whiteSpace)

-- ==================================================================== limits

namespace Config

/-- A value names a limit: decimal digits, perhaps behind a plus sign, in
white space or not, that stand for a positive number of at most 64 bits. -/
def NamesLimit (value : String) (limit : Nat) : Prop :=
  ∃ before sign digits after : List Char, value.toList = before ++ (sign ++ digits) ++ after
    ∧ (∀ c ∈ before, c.toNat ∈ whiteSpace) ∧ (∀ c ∈ after, c.toNat ∈ whiteSpace)
    ∧ (sign = [] ∨ sign = ['+']) ∧ digits ≠ [] ∧ (∀ c ∈ digits, '0' ≤ c ∧ c ≤ '9')
    ∧ limit = Nat.ofDigits 10 (digits.map fun c => c.toNat - '0'.toNat).reverse
    ∧ 1 ≤ limit ∧ limit < 2 ^ 64

/-- A number is digits behind a plus sign or not, and nothing else. -/
theorem natural?_eq_some_iff {cs : List Char} {n : Nat} :
    natural? cs = some n ↔ ∃ sign digits, cs = sign ++ digits ∧ (sign = [] ∨ sign = ['+'])
      ∧ Decimal.areDigits digits = true ∧ n = Decimal.valueOf digits := by
  unfold natural?
  dsimp only
  constructor
  · intro h
    rw [Option.ite_none_right_eq_some, Option.some_inj] at h
    by_cases hplus : ['+'].isPrefixOf cs = true
    · obtain ⟨digits, rfl⟩ := List.isPrefixOf_iff_prefix.1 hplus
      rw [if_pos hplus] at h
      exact ⟨['+'], digits, rfl, .inr rfl, h.1, h.2.symm⟩
    · rw [if_neg hplus] at h
      exact ⟨[], cs, rfl, .inl rfl, h.1, h.2.symm⟩
  · intro h
    obtain ⟨sign, digits, rfl, hsign, hdigits, rfl⟩ := h
    have hstripped : (if ['+'].isPrefixOf (sign ++ digits) then (sign ++ digits).drop 1
        else sign ++ digits) = digits := by
      rcases hsign with rfl | rfl
      · -- a digit is not a plus sign
        refine if_neg fun hplus => ?_
        obtain ⟨rest, rfl⟩ := List.isPrefixOf_iff_prefix.1 hplus
        exact absurd ((Decimal.areDigits_iff.1 hdigits).2 '+' List.mem_cons_self) (by decide)
      · rfl
    rw [hstripped, if_pos hdigits]

/-- No digit is white space, nor is the plus sign. -/
theorem not_isBlank_of_mem_numeral {sign digits : List Char} (hsign : sign = [] ∨ sign = ['+'])
    (hdigits : ∀ c ∈ digits, '0' ≤ c ∧ c ≤ '9') :
    ∀ c ∈ sign ++ digits, Text.isBlank c = false := by
  intro c hc
  rcases List.mem_append.1 hc with hc | hc
  · rcases hsign with rfl | rfl
    · cases hc
    · obtain rfl := List.mem_singleton.1 hc
      rfl
  · obtain ⟨hzero, hnine⟩ := hdigits c hc
    have hge : 48 ≤ c.toNat := hzero
    have hle : c.toNat ≤ 57 := hnine
    refine Bool.eq_false_iff.2 fun hblank => ?_
    have hcode := Text.isBlank_iff.1 hblank
    simp only [whiteSpace, List.mem_cons, List.not_mem_nil, or_false] at hcode
    omega

/-- The values that are read as limits are those that name one. On the right
there is no reader: blanks around the text, a sign, digits, and the number
that they are the digits of. -/
theorem limit?_eq_some_iff {value : String} {limit : Nat} :
    limit? value = some limit ↔ NamesLimit value limit := by
  have hbounds : ∀ n : Nat, (0 < n && n ≤ greatestLimit : Bool) = true ↔ 1 ≤ n ∧ n < 2 ^ 64 := by
    intro n
    rw [Bool.and_eq_true, decide_eq_true_iff, decide_eq_true_iff]
    exact and_congr_right fun _ => Nat.lt_succ_iff.symm
  unfold limit?
  rw [Option.filter_eq_some_iff, hbounds, natural?_eq_some_iff, Text.trim, String.toList_ofList]
  constructor
  · intro h
    obtain ⟨⟨sign, digits, htrim, hsign, hdigits, rfl⟩, hpositive, hfits⟩ := h
    obtain ⟨before, after, hvalue, hbefore, hafter⟩ := Text.exists_trimChars value.toList
    rw [htrim] at hvalue
    obtain ⟨hne, hall⟩ := Decimal.areDigits_iff.1 hdigits
    exact ⟨before, sign, digits, after, hvalue, fun c hc => Text.isBlank_iff.1 (hbefore c hc),
      fun c hc => Text.isBlank_iff.1 (hafter c hc), hsign, hne, hall, Decimal.valueOf_eq digits,
      hpositive, hfits⟩
  · intro h
    obtain ⟨before, sign, digits, after, hvalue, hbefore, hafter, hsign, hne, hall, hlimit,
      hpositive, hfits⟩ := h
    have hsolid := not_isBlank_of_mem_numeral hsign hall
    refine ⟨⟨sign, digits, ?_, hsign, Decimal.areDigits_iff.2 ⟨hne, hall⟩,
      hlimit.trans (Decimal.valueOf_eq digits).symm⟩, hpositive, hfits⟩
    rw [hvalue]
    refine Text.trimChars_append (fun c hc => Text.isBlank_iff.2 (hbefore c hc))
      (fun c hc => Text.isBlank_iff.2 (hafter c hc)) ?_ ?_ ?_
    · exact List.append_ne_nil_of_right_ne_nil _ hne
    · exact fun c hc => hsolid c (List.mem_of_mem_head? hc)
    · exact fun c hc => hsolid c (List.mem_of_getLast? hc)

/-- A value that is read as no limit names none. -/
theorem limit?_eq_none_iff {value : String} :
    limit? value = none ↔ ∀ limit, ¬ NamesLimit value limit := by
  rw [Option.eq_none_iff_forall_ne_some]
  exact forall_congr' fun limit => not_congr limit?_eq_some_iff

theorem NamesLimit.unique {value : String} {limit limit' : Nat} (h : NamesLimit value limit)
    (h' : NamesLimit value limit') : limit = limit' :=
  Option.some.inj ((limit?_eq_some_iff.2 h).symm.trans (limit?_eq_some_iff.2 h'))

theorem NamesLimit.one_le {value : String} {limit : Nat} (h : NamesLimit value limit) :
    1 ≤ limit := by
  obtain ⟨_, _, _, _, _, _, _, _, _, _, _, hpositive, _⟩ := h
  exact hpositive

end Config

-- ===================================================================== modes

namespace CommandLine

/-- The three words for when reports are coloured. -/
inductive NamesMode : String → ColorMode → Prop where
  | auto : NamesMode "auto" .auto
  | always : NamesMode "always" .always
  | never : NamesMode "never" .never

/-- The values that are read as modes are the three words. Nothing is trimmed
here, and capital letters are not taken for small ones. -/
theorem colorMode?_eq_some_iff {value : String} {mode : ColorMode} :
    colorMode? value = some mode ↔ NamesMode value mode := by
  constructor
  · intro h
    unfold colorMode? at h
    split at h
    · obtain rfl := Option.some.inj h
      exact .auto
    · obtain rfl := Option.some.inj h
      exact .always
    · obtain rfl := Option.some.inj h
      exact .never
    · cases h
  · intro h
    cases h <;> rfl

theorem NamesMode.unique {value : String} {mode mode' : ColorMode} (h : NamesMode value mode)
    (h' : NamesMode value mode') : mode = mode' :=
  Option.some.inj ((colorMode?_eq_some_iff.2 h).symm.trans (colorMode?_eq_some_iff.2 h'))

/-- A value that is read as no mode is none of the words. -/
theorem colorMode?_eq_none_iff {value : String} :
    colorMode? value = none ↔ value ∉ ["auto", "always", "never"] := by
  unfold colorMode?
  split <;> simp_all

end CommandLine

end UiScript
