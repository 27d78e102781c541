/-
Texts as the bytes of their UTF-8 form, and measured in them. Offsets into a
source count bytes, so a slice may fall inside a character; then there is
none.

# Main statements

* `bytes_append` — bytes of texts are strung together as the texts are.
* `width_append` — widths add up.
* `take?_width_append` — taking as many bytes as a text has gives that text.
-/

namespace UiScript.Text

-- ================================================================= bytes

/-- The bytes of a text. -/
def bytes (cs : List Char) : List UInt8 := cs.flatMap String.utf8EncodeChar

@[simp] theorem bytes_nil : bytes [] = [] := rfl

@[simp] theorem bytes_cons (c : Char) (cs : List Char) :
    bytes (c :: cs) = String.utf8EncodeChar c ++ bytes cs := rfl

/-- Bytes of texts are strung together as the texts are. -/
@[simp] theorem bytes_append (cs ds : List Char) : bytes (cs ++ ds) = bytes cs ++ bytes ds :=
  List.flatMap_append

/-- The byte of the small letter for that of a capital one; other bytes stay
as they are, those of characters that are not of ASCII among them. -/
def lowerByte (b : UInt8) : UInt8 := if 65 ≤ b ∧ b ≤ 90 then b + 32 else b

-- ================================================================= width

/-- How many bytes the characters take. -/
def width (cs : List Char) : Nat := cs.foldl (fun total c => total + c.utf8Size) 0

/-- Widths may be added up from any number on. -/
theorem foldl_width (n : Nat) (cs : List Char) :
    cs.foldl (fun total c => total + c.utf8Size) n = n + width cs := by
  induction cs generalizing n with
  | nil => simp [width]
  | cons c cs ih =>
    have hc : width (c :: cs) = 0 + c.utf8Size + width cs := by
      rw [width, List.foldl_cons, ih]
    rw [List.foldl_cons, ih, hc]
    omega

@[simp] theorem width_nil : width [] = 0 := rfl

@[simp] theorem width_cons (c : Char) (cs : List Char) :
    width (c :: cs) = c.utf8Size + width cs := by
  rw [width, List.foldl_cons, foldl_width]
  omega

/-- Widths add up. -/
@[simp] theorem width_append (cs ds : List Char) : width (cs ++ ds) = width cs + width ds := by
  induction cs with
  | nil => simp
  | cons c cs ih =>
    rw [List.cons_append, width_cons, width_cons, ih]
    omega

/-- Only the empty text has no bytes. -/
theorem width_pos {cs : List Char} (h : cs ≠ []) : 0 < width cs := by
  cases cs with
  | nil => exact absurd rfl h
  | cons c cs =>
    rw [width_cons]
    exact Nat.lt_of_lt_of_le (Char.utf8Size_pos c) (Nat.le_add_right ..)

-- ================================================================ slices

/-- The first `n` bytes, if a character ends there, with what follows them. -/
def split? (n : Nat) (cs : List Char) : Option (List Char × List Char) :=
  go n [] cs
where
  /-- `taken` holds the characters before, in reverse. -/
  go : Nat → List Char → List Char → Option (List Char × List Char)
    | 0, taken, cs => some (taken.reverse, cs)
    | _ + 1, _, [] => none
    | n + 1, taken, c :: cs => if c.utf8Size ≤ n + 1 then go (n + 1 - c.utf8Size) (c :: taken) cs else none
  termination_by _ _ cs => cs

/-- The first `n` bytes, if a character ends there. -/
def take? (n : Nat) (cs : List Char) : Option (List Char) := (split? n cs).map Prod.fst

/-- The text without its first `n` bytes, if a character ends there. -/
def drop? (n : Nat) (cs : List Char) : Option (List Char) := (split? n cs).map Prod.snd

/-- The bytes from `start` to `stop`, if both fall between characters. -/
def slice? (start stop : Nat) (cs : List Char) : Option (List Char) :=
  (drop? start cs).bind (take? (stop - start))

/-- How many whole characters end at or before the byte offset `n`. -/
def charsBefore (n : Nat) (cs : List Char) : Nat :=
  go n 0 cs
where
  /-- `count` characters have been passed. -/
  go : Nat → Nat → List Char → Nat
    | _, count, [] => count
    | n, count, c :: cs => if c.utf8Size ≤ n then go (n - c.utf8Size) (count + 1) cs else count

/-- Splitting behind as many bytes as a text has comes to its end, whatever is
behind. -/
theorem split?_go_width_append (taken cs ds : List Char) :
    split?.go (width cs) taken (cs ++ ds) = some (taken.reverse ++ cs, ds) := by
  induction cs generalizing taken with
  | nil => cases ds <;> simp [split?.go]
  | cons c cs ih =>
    have hc := Char.utf8Size_pos c
    obtain ⟨k, hk⟩ : ∃ k, width (c :: cs) = k + 1 :=
      ⟨width (c :: cs) - 1, by rw [width_cons]; omega⟩
    rw [hk, List.cons_append, split?.go, if_pos (by rw [← hk, width_cons]; omega), ← hk, width_cons,
      Nat.add_sub_cancel_left, ih]
    simp

/-- Splitting after as many bytes as a text has gives that text and the rest. -/
theorem split?_width_append (cs ds : List Char) : split? (width cs) (cs ++ ds) = some (cs, ds) := by
  simpa [split?] using split?_go_width_append [] cs ds

/-- Taking as many bytes as a text has gives that text. Such a cut always
falls between characters. -/
theorem take?_width_append (cs ds : List Char) : take? (width cs) (cs ++ ds) = some cs := by
  simp [take?, split?_width_append]

/-- Dropping as many bytes as a text has leaves what follows it. -/
theorem drop?_width_append (cs ds : List Char) : drop? (width cs) (cs ++ ds) = some ds := by
  simp [drop?, split?_width_append]

end UiScript.Text
