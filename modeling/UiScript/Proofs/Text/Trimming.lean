/-
Trimming, told without a loop. A text is white space, what trimming leaves of
it, and white space again; and what neither begins nor ends with white space
is left as it is, whatever white space stands around it. So the trimmed text
is the one part of a text that has both.

# Main statements

* `isBlank_iff`: the blanks are the characters with the property White_Space.
* `exists_trimChars`: what trimming takes away.
* `trimChars_append`: what it leaves.
-/
import UiScript.Text.Blank

namespace UiScript.Text

-- ================================================================ white space

/-- The code points with the Unicode property White_Space. -/
def whiteSpace : List Nat :=
  [0x0009, 0x000A, 0x000B, 0x000C, 0x000D, 0x0020, 0x0085, 0x00A0, 0x1680,
    0x2000, 0x2001, 0x2002, 0x2003, 0x2004, 0x2005, 0x2006, 0x2007, 0x2008, 0x2009, 0x200A,
    0x2028, 0x2029, 0x202F, 0x205F, 0x3000]

/-- The ten ranges of the model hold these code points and no others. The list
is that of the property White_Space. -/
theorem isBlank_iff {c : Char} : isBlank c = true ↔ c.toNat ∈ whiteSpace := by
  unfold isBlank whiteSpace
  simp only [Bool.or_eq_true, Bool.and_eq_true, decide_eq_true_eq, beq_iff_eq, List.mem_cons,
    List.not_mem_nil, or_false]
  omega

-- ================================================================== trimming

/-- Around what trimming leaves of a text there is nothing but blanks. -/
theorem exists_trimChars (cs : List Char) :
    ∃ before after, cs = before ++ trimChars cs ++ after
      ∧ (∀ c ∈ before, isBlank c = true) ∧ ∀ c ∈ after, isBlank c = true := by
  refine ⟨cs.takeWhile isBlank, ((cs.dropWhile isBlank).reverse.takeWhile isBlank).reverse,
    ?_, List.all_eq_true.1 List.all_takeWhile, ?_⟩
  · rw [trimChars, List.append_assoc, ← List.reverse_append, List.takeWhile_append_dropWhile,
      List.reverse_reverse, List.takeWhile_append_dropWhile]
  · intro c hc
    exact List.all_eq_true.1 List.all_takeWhile c (List.mem_reverse.1 hc)

/-- Blanks in front of a text that does not begin with one are all that is
dropped there. -/
theorem dropWhile_isBlank_append {before cs : List Char} (hbefore : ∀ c ∈ before, isBlank c = true)
    (hfirst : ∀ c ∈ cs.head?, isBlank c = false) : (before ++ cs).dropWhile isBlank = cs := by
  rw [List.dropWhile_append_of_pos hbefore]
  cases cs with
  | nil => rfl
  | cons c cs => exact List.dropWhile_cons_of_neg (Bool.eq_false_iff.1 (hfirst c rfl))

/-- Of a text in blanks the text is left, if no blank stands at either end of
it. With the one before, it says which text is left, and that there is only
one. -/
theorem trimChars_append {before mid after : List Char}
    (hbefore : ∀ c ∈ before, isBlank c = true) (hafter : ∀ c ∈ after, isBlank c = true)
    (hne : mid ≠ []) (hfirst : ∀ c ∈ mid.head?, isBlank c = false)
    (hlast : ∀ c ∈ mid.getLast?, isBlank c = false) :
    trimChars (before ++ mid ++ after) = mid := by
  have hhead : ∀ c ∈ (mid ++ after).head?, isBlank c = false := by
    obtain ⟨c, rest, rfl⟩ := List.exists_cons_of_ne_nil hne
    exact hfirst
  rw [trimChars, List.append_assoc, dropWhile_isBlank_append hbefore hhead, List.reverse_append,
    dropWhile_isBlank_append (fun c hc => hafter c (List.mem_reverse.1 hc)), List.reverse_reverse]
  rw [List.head?_reverse]
  exact hlast

end UiScript.Text
