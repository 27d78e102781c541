/-
The bytes of a text in UTF-8. The byte of an ASCII character is part of no
other character. Where it stands, the character stands, so its offset is
between characters; so the bytes of an ASCII pattern are found where the
pattern is, and a run of such bytes is a run of such characters. Letters
change their case among the bytes as they do among the characters.

# Main statements

* `toUInt8_mem_utf8EncodeChar`: the byte of an ASCII character belongs to it
  alone.
* `count_bytes`: the byte stands in a text as often as the character does.
* `getElem?_bytes`: where the byte stands, the character does.
* `isInfix_bytes`: where the bytes of a pattern stand, the pattern does.
* `map_lowerByte_bytes`: small letters for capital ones, in bytes.
* `trailing_bytes`: bytes at the end of a text are counted as characters are.
-/
import Mathlib.Data.List.Induction
import UiScript.Text.Bytes

namespace UiScript.Text

-- ====================================================================== bytes

/-- A text has as many bytes as it is wide. -/
@[simp] theorem length_bytes (cs : List Char) : (bytes cs).length = width cs := by
  induction cs with
  | nil => rfl
  | cons c cs ih => rw [bytes_cons, List.length_append, String.length_utf8EncodeChar, ih, width_cons]

/-- The first bytes of a text, as many as a part of it takes, are those of the
part. -/
theorem take_bytes (cs ds : List Char) : (bytes (cs ++ ds)).take (width cs) = bytes cs := by
  rw [bytes_append, List.take_left' (length_bytes cs)]

-- ====================================================================== ASCII

/-- The bytes of a character that is not of ASCII are above those that are. -/
theorem le_of_mem_utf8EncodeChar {c : Char} (hc : c.utf8Size ≠ 1) {b : UInt8}
    (hb : b ∈ String.utf8EncodeChar c) : 128 ≤ b.toNat := by
  rw [Ne, Char.utf8Size_eq_one_iff, UInt32.le_iff_toNat_le] at hc
  unfold String.utf8EncodeChar at hb
  dsimp only at hb
  split at hb
  · next h => exact absurd h hc
  split at hb
  · rcases hb with _ | ⟨_, _ | ⟨_, ⟨⟩⟩⟩ <;> simp <;> omega
  split at hb
  · rcases hb with _ | ⟨_, _ | ⟨_, _ | ⟨_, ⟨⟩⟩⟩⟩ <;> simp <;> omega
  · rcases hb with _ | ⟨_, _ | ⟨_, _ | ⟨_, _ | ⟨_, ⟨⟩⟩⟩⟩⟩ <;> simp <;> omega

/-- An ASCII character is its only byte, below 128. -/
theorem toNat_toUInt8 {a : Char} (ha : a.utf8Size = 1) :
    a.toUInt8.toNat = a.toNat ∧ a.toNat < 128 := by
  rw [Char.utf8Size_eq_one_iff, UInt32.le_iff_toNat_le] at ha
  have hlt : a.val.toNat < 128 := Nat.lt_succ_of_le ha
  refine ⟨?_, hlt⟩
  show a.val.toUInt8.toNat = a.val.toNat
  rw [UInt32.toNat_toUInt8]
  exact Nat.mod_eq_of_lt (Nat.lt_trans hlt (by decide))

/-- An ASCII character is one byte. -/
theorem utf8EncodeChar_of_ascii {a : Char} (ha : a.utf8Size = 1) :
    String.utf8EncodeChar a = [a.toUInt8] := String.utf8EncodeChar_eq_singleton ha

/-- The byte of an ASCII character is part of no other character. All bytes of
longer characters are 128 or more. -/
theorem toUInt8_mem_utf8EncodeChar {a c : Char} (ha : a.utf8Size = 1) :
    a.toUInt8 ∈ String.utf8EncodeChar c ↔ c = a := by
  obtain ⟨hbyte, hascii⟩ := toNat_toUInt8 ha
  constructor
  · intro h
    by_cases hc : c.utf8Size = 1
    · rw [utf8EncodeChar_of_ascii hc, List.mem_singleton] at h
      apply Char.toNat_inj.1
      rw [← hbyte, ← (toNat_toUInt8 hc).1]
      exact congrArg UInt8.toNat h.symm
    · have := le_of_mem_utf8EncodeChar hc h
      omega
  · rintro rfl
    rw [utf8EncodeChar_of_ascii ha]
    exact List.mem_singleton_self _

/-- The byte of an ASCII character stands in a text as often as the character
does. The induction is on the characters, each with all of its bytes. -/
theorem count_bytes {a : Char} (ha : a.utf8Size = 1) (cs : List Char) :
    (bytes cs).count a.toUInt8 = cs.count a := by
  induction cs with
  | nil => rfl
  | cons c cs ih =>
    rw [bytes_cons, List.count_append, ih, List.count_cons]
    by_cases hc : c = a
    · rw [hc, utf8EncodeChar_of_ascii ha, List.count_singleton_self, beq_self_eq_true, if_pos rfl,
        Nat.add_comm]
    · rw [List.count_eq_zero.2 (mt (toUInt8_mem_utf8EncodeChar ha).1 hc), beq_false_of_ne hc,
        if_neg Bool.false_ne_true, Nat.zero_add, Nat.add_zero]

/-- Where the byte of an ASCII character stands, the character does. And its
offset is the width of what is before it. -/
theorem getElem?_bytes {a : Char} (ha : a.utf8Size = 1) {cs : List Char} {i : Nat} :
    (bytes cs)[i]? = some a.toUInt8 ↔
      ∃ before after, cs = before ++ a :: after ∧ width before = i := by
  constructor
  · intro h
    induction cs generalizing i with
    | nil => cases h
    | cons c cs ih =>
      rw [bytes_cons, List.getElem?_append, String.length_utf8EncodeChar] at h
      split at h
      · next hi =>
        obtain rfl := (toUInt8_mem_utf8EncodeChar ha).1 (List.mem_of_getElem? h)
        refine ⟨[], cs, rfl, ?_⟩
        show 0 = i
        omega
      · next hi =>
        obtain ⟨before, after, rfl, hbefore⟩ := ih h
        refine ⟨c :: before, after, rfl, ?_⟩
        rw [width_cons]
        omega
  · rintro ⟨before, after, rfl, rfl⟩
    rw [bytes_append, List.getElem?_append_right (Nat.le_of_eq (length_bytes before)), length_bytes,
      Nat.sub_self, bytes_cons, utf8EncodeChar_of_ascii ha]
    rfl

-- =================================================================== patterns

/-- ASCII characters in front of a text, and their bytes in front of its
bytes. -/
theorem isPrefix_bytes {pattern : List Char} (hascii : ∀ a ∈ pattern, a.utf8Size = 1)
    {cs : List Char} : bytes pattern <+: bytes cs ↔ pattern <+: cs := by
  induction pattern generalizing cs with
  | nil => simp
  | cons a pattern ih =>
    have ha : a.utf8Size = 1 := hascii a List.mem_cons_self
    constructor
    · intro h
      have hfirst : (bytes cs)[0]? = some a.toUInt8 := by
        obtain ⟨after, h⟩ := h
        rw [← h, bytes_cons, utf8EncodeChar_of_ascii ha]
        rfl
      obtain ⟨before, rest, rfl, hbefore⟩ := (getElem?_bytes ha).1 hfirst
      obtain rfl : before = [] := by
        by_contra hne
        exact absurd hbefore (Nat.ne_of_gt (width_pos hne))
      rw [bytes_cons, List.nil_append, bytes_cons, List.prefix_append_right_inj] at h
      exact (List.prefix_cons_inj a).2 ((ih fun b hb => hascii b (List.mem_cons_of_mem a hb)).1 h)
    · rintro ⟨rest, rfl⟩
      rw [bytes_append]
      exact List.prefix_append _ _

/-- ASCII characters stand in a text exactly where their bytes stand among its
bytes: none of the bytes is part of another character. -/
theorem isInfix_bytes {pattern : List Char} (hascii : ∀ a ∈ pattern, a.utf8Size = 1)
    {cs : List Char} : bytes pattern <:+: bytes cs ↔ pattern <:+: cs := by
  constructor
  · cases pattern with
    | nil => exact fun _ => List.nil_infix
    | cons a pattern =>
      have ha : a.utf8Size = 1 := hascii a List.mem_cons_self
      rintro ⟨x, y, h⟩
      have hfirst : (bytes cs)[x.length]? = some a.toUInt8 := by
        rw [← h, bytes_cons, utf8EncodeChar_of_ascii ha]
        simp
      obtain ⟨before, after, rfl, hbefore⟩ := (getElem?_bytes ha).1 hfirst
      rw [bytes_append, List.append_assoc] at h
      obtain ⟨-, hrest⟩ := List.append_inj h (by rw [length_bytes, hbefore])
      obtain ⟨rest, hrest⟩ := (isPrefix_bytes hascii).1 ⟨y, hrest⟩
      exact ⟨before, rest, by rw [← hrest, List.append_assoc]⟩
  · rintro ⟨before, after, rfl⟩
    rw [bytes_append, bytes_append]
    exact ⟨bytes before, bytes after, rfl⟩

-- ======================================================================= case

/-- A byte of a capital letter becomes 32 more, every other byte stays. -/
theorem toNat_lowerByte (b : UInt8) :
    (lowerByte b).toNat = if 65 ≤ b.toNat ∧ b.toNat ≤ 90 then b.toNat + 32 else b.toNat := by
  have hcapital : (65 ≤ b ∧ b ≤ 90) ↔ 65 ≤ b.toNat ∧ b.toNat ≤ 90 := by
    simp only [UInt8.le_iff_toNat_le]
    exact Iff.rfl
  unfold lowerByte
  by_cases h : 65 ≤ b ∧ b ≤ 90
  · rw [if_pos h, if_pos (hcapital.1 h), UInt8.toNat_add]
    have := (hcapital.1 h).2
    exact Nat.mod_eq_of_lt (show b.toNat + 32 < 256 by omega)
  · rw [if_neg h, if_neg (mt hcapital.2 h)]

/-- So does the number of a capital letter, and that of every other character. -/
theorem toNat_toLower (c : Char) :
    c.toLower.toNat = if 65 ≤ c.toNat ∧ c.toNat ≤ 90 then c.toNat + 32 else c.toNat := by
  unfold Char.toLower
  have hcapital : (c.val ≥ 'A'.val ∧ c.val ≤ 'Z'.val) ↔ 65 ≤ c.toNat ∧ c.toNat ≤ 90 := by
    simp only [ge_iff_le, UInt32.le_iff_toNat_le]
    exact Iff.rfl
  by_cases h : c.val ≥ 'A'.val ∧ c.val ≤ 'Z'.val
  · rw [dif_pos h, if_pos (hcapital.1 h)]
    show (c.val + ('a'.val - 'A'.val)).toNat = c.toNat + 32
    rw [UInt32.toNat_add]
    have := (hcapital.1 h).2
    exact Nat.mod_eq_of_lt (show c.toNat + 32 < _ by omega)
  · rw [dif_neg h, if_neg (mt hcapital.2 h)]

/-- A capital letter of ASCII is one byte, and its small letter is another. -/
theorem map_lowerByte_utf8EncodeChar (c : Char) :
    (String.utf8EncodeChar c).map lowerByte = String.utf8EncodeChar c.toLower := by
  have hlower := toNat_toLower c
  by_cases hc : c.utf8Size = 1
  · obtain ⟨hbyte, hascii⟩ := toNat_toUInt8 hc
    have hl : c.toLower.utf8Size = 1 := by
      rw [Char.utf8Size_eq_one_iff, UInt32.le_iff_toNat_le]
      show c.toLower.toNat ≤ 127
      split at hlower <;> omega
    rw [utf8EncodeChar_of_ascii hc, utf8EncodeChar_of_ascii hl, List.map_singleton]
    congr 1
    apply UInt8.toNat.inj
    rw [toNat_lowerByte, (toNat_toUInt8 hl).1, hlower, hbyte]
  · -- no byte of the character is a letter, and the character is none
    have hsame : c.toLower = c := by
      rw [Char.utf8Size_eq_one_iff, UInt32.le_iff_toNat_le] at hc
      have : ¬ c.toNat ≤ 127 := hc
      rw [if_neg (by omega)] at hlower
      exact Char.toNat_inj.1 hlower
    rw [hsame]
    conv_rhs => rw [← List.map_id (String.utf8EncodeChar c)]
    refine List.map_congr_left fun b hb => UInt8.toNat.inj ?_
    have := le_of_mem_utf8EncodeChar hc hb
    rw [toNat_lowerByte, if_neg (by omega)]
    rfl

/-- The small letters for the capital ones, among the bytes and among the
characters. -/
theorem map_lowerByte_bytes (cs : List Char) :
    (bytes cs).map lowerByte = bytes (cs.map Char.toLower) := by
  induction cs with
  | nil => rfl
  | cons c cs ih =>
    rw [bytes_cons, List.map_append, map_lowerByte_utf8EncodeChar, ih, List.map_cons, bytes_cons]

-- ======================================================================= runs

/-- How often an element stands at the end of a list. -/
def trailing {α : Type} [DecidableEq α] (a : α) (l : List α) : Nat :=
  (l.reverse.takeWhile (· = a)).length

section
variable {α : Type} [DecidableEq α] (a : α) (l : List α)

/-- One more of the element at the end is counted. -/
theorem trailing_concat_self : trailing a (l ++ [a]) = trailing a l + 1 := by
  simp [trailing]

/-- Anything else at the end leaves none to be counted. -/
theorem trailing_concat {b : α} (hb : b ≠ a) : trailing a (l ++ [b]) = 0 := by
  simp [trailing, hb]

/-- A part at the end without the element hides all that is in front of it. -/
theorem trailing_append_of_notMem {m : List α} (hm : m ≠ []) (ha : a ∉ m) :
    trailing a (l ++ m) = 0 := by
  rw [← List.dropLast_concat_getLast hm, ← List.append_assoc]
  apply trailing_concat
  intro hlast
  exact ha (hlast ▸ List.getLast_mem hm)

end

/-- The bytes at the end of a text that are an ASCII character are as many as
the characters. This is how backslashes in front of a quote are counted. -/
theorem trailing_bytes {a : Char} (ha : a.utf8Size = 1) (cs : List Char) :
    trailing a.toUInt8 (bytes cs) = trailing a cs := by
  induction cs using List.reverseRecOn with
  | nil => rfl
  | append_singleton init c ih =>
    rw [bytes_append, bytes_cons, bytes_nil, List.append_nil]
    by_cases hc : c = a
    · rw [hc, utf8EncodeChar_of_ascii ha, trailing_concat_self, trailing_concat_self, ih]
    · have hbyte := mt (toUInt8_mem_utf8EncodeChar ha).1 hc
      rw [trailing_append_of_notMem _ _ String.utf8EncodeChar_ne_nil hbyte, trailing_concat _ _ hc]

end UiScript.Text
