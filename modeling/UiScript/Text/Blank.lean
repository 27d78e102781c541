/-
Blank and control characters, and the two operations on text that are
made of them: cutting blanks off both ends (`trim`) and cutting a text
into its words (`words`). Blank is the Unicode property White_Space and
control the general category Cc; both are closed lists of ranges.

# Main statements

* `not_isBlank_of_mem_words` — no word holds a blank, and `ne_nil_of_mem_words`
  says that no word is empty.
-/

namespace UiScript.Text

-- ===================================================== character classes

/-- White_Space: twenty-five characters in ten ranges. -/
def isBlank (c : Char) : Bool :=
  let n := c.toNat
  (0x09 ≤ n && n ≤ 0x0d) || n == 0x20 || n == 0x85 || n == 0xa0 || n == 0x1680
    || (0x2000 ≤ n && n ≤ 0x200a) || n == 0x2028 || n == 0x2029 || n == 0x202f
    || n == 0x205f || n == 0x3000

/-- General category Cc: the two blocks of control codes. -/
def isControl (c : Char) : Bool :=
  c.toNat ≤ 0x1f || (0x7f ≤ c.toNat && c.toNat ≤ 0x9f)

-- ============================================================== trimming

/-- The list without the blanks at its two ends. -/
def trimChars (cs : List Char) : List Char :=
  ((cs.dropWhile isBlank).reverse.dropWhile isBlank).reverse

/-- The text without the blanks at its two ends. -/
def trim (s : String) : String := String.ofList (trimChars s.toList)

-- ================================================================= words

/-- The maximal blank-free pieces of `cs`, with `word` (reversed) read so far. -/
def wordsFrom (word : List Char) : List Char → List (List Char)
  | [] => if word.isEmpty then [] else [word.reverse]
  | c :: cs =>
    if isBlank c then
      if word.isEmpty then wordsFrom [] cs else word.reverse :: wordsFrom [] cs
    else wordsFrom (c :: word) cs

/-- The maximal blank-free pieces of a text, in order. -/
def words (s : String) : List String := (wordsFrom [] s.toList).map String.ofList

theorem not_isBlank_of_mem_wordsFrom {cs word w : List Char} {c : Char}
    (hword : ∀ x ∈ word, isBlank x = false) (hw : w ∈ wordsFrom word cs) (hc : c ∈ w) :
    isBlank c = false := by
  induction cs generalizing word with
  | nil =>
    simp only [wordsFrom] at hw
    split at hw
    · cases hw
    · rw [List.mem_singleton.1 hw] at hc
      exact hword c (List.mem_reverse.1 hc)
  | cons d cs ih =>
    simp only [wordsFrom] at hw
    split at hw
    · split at hw
      · exact ih (by simp) hw
      · rcases List.mem_cons.1 hw with rfl | hw
        · exact hword c (List.mem_reverse.1 hc)
        · exact ih (by simp) hw
    · next hd =>
      refine ih ?_ hw
      intro x hx
      rcases List.mem_cons.1 hx with rfl | hx
      · simpa using hd
      · exact hword x hx

theorem ne_nil_of_mem_wordsFrom {cs word w : List Char} (hw : w ∈ wordsFrom word cs) : w ≠ [] := by
  induction cs generalizing word with
  | nil =>
    simp only [wordsFrom] at hw
    split at hw
    · cases hw
    · next h =>
      rw [List.mem_singleton.1 hw]
      simpa using h
  | cons d cs ih =>
    simp only [wordsFrom] at hw
    split at hw
    · split at hw
      · exact ih hw
      · next h =>
        rcases List.mem_cons.1 hw with rfl | hw
        · simpa using h
        · exact ih hw
    · exact ih hw

/-- No word of a text holds a blank. A class that is a word can be put into an
attribute beside others. -/
theorem not_isBlank_of_mem_words {s w : String} {c : Char} (hw : w ∈ words s) (hc : c ∈ w.toList) :
    isBlank c = false := by
  obtain ⟨cs, hcs, rfl⟩ := List.mem_map.1 hw
  rw [String.toList_ofList] at hc
  exact not_isBlank_of_mem_wordsFrom (by simp) hcs hc

/-- No word of a text is empty. -/
theorem ne_nil_of_mem_words {s w : String} (hw : w ∈ words s) : w.toList ≠ [] := by
  obtain ⟨cs, hcs, rfl⟩ := List.mem_map.1 hw
  rw [String.toList_ofList]
  exact ne_nil_of_mem_wordsFrom hcs

end UiScript.Text
