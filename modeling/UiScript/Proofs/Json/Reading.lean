/-
Reading JSON back. A reader takes what it reads off the front of a text and
leaves the rest, which is shorter; so one is put behind the other, down to
the parts of a document. It reads documents that are made of strings, arrays
and objects and are written without any space.

A document that is made of these is read back from its form, whatever stands
behind it: strings end at the first quote that is not escaped, and a comma or
a closing bracket stands behind each item.

# Main statements

* `reads_escapeChar`, `reads_writeString`: characters and strings.
* `reads_compactOnto`: documents in front of a rest, by their constructors.
* `ofText?_compact`: documents that are all of a text.
-/
import Mathlib.Tactic.SplitIfs
import UiScript.Json
import UiScript.Token.StringLiteral

namespace UiScript.Json

open Token.StringLiteral (charOf? hexValue?)

-- ================================================================== readings

/-- What is read off the front of a text, and what is left of the text, which
is shorter. -/
structure Reading (α : Type) (cs : List Char) where
  value : α
  rest : List Char
  shorter : rest.length < cs.length

namespace Reading

variable {α β γ : Type} {cs : List Char}

/-- What is read behind a character. -/
def behind (r : Reading α cs) (c : Char) : Reading α (c :: cs) :=
  ⟨r.value, r.rest, Nat.lt_succ_of_lt r.shorter⟩

/-- What is made of what is read. -/
def map (r : Reading α cs) (f : α → β) : Reading β cs := ⟨f r.value, r.rest, r.shorter⟩

/-- What is made of what is read, and of what is read behind it. -/
def and (r : Reading α cs) (next : Reading β r.rest) (f : α → β → γ) : Reading γ cs :=
  ⟨f r.value next.value, next.rest, Nat.lt_trans next.shorter r.shorter⟩

end Reading

/-- A reader: what it reads off the front of a text, if it does. -/
abbrev Reader (α : Type) : Type := (cs : List Char) → Option (Reading α cs)

/-- One character, and no other one. -/
def mark? (mark : Char) : Reader Unit
  | [] => none
  | c :: cs => if c = mark then some ⟨(), cs, Nat.lt_succ_self _⟩ else none

-- =================================================================== strings

/-- The character that a letter behind a backslash stands for. -/
def named? (c : Char) : Option Char :=
  if c = '\x22' ∨ c = '\\' ∨ c = '/' then some c
  else if c = 'b' then some '\x08'
  else if c = 'f' then some '\x0c'
  else if c = 'n' then some '\n'
  else if c = 'r' then some '\r'
  else if c = 't' then some '\t'
  else none

/-- The character with a number of four digits. -/
def numbered? : Reader Char
  | a :: b :: c :: d :: cs => do
    let high := (← hexValue? a) * 16 + (← hexValue? b)
    let low := (← hexValue? c) * 16 + (← hexValue? d)
    let char ← charOf? (high * 256 + low)
    return ⟨char, cs, by simp only [List.length_cons]; omega⟩
  | _ => none

/-- The character that is written behind a backslash. -/
def escaped? : Reader Char
  | [] => none
  | c :: cs =>
    if c = 'u' then (numbered? cs).map (·.behind c)
    else (named? c).map fun char => ⟨char, cs, Nat.lt_succ_self _⟩

/-- The characters up to the closing quote. -/
def chars? : Reader (List Char)
  | [] => none
  | c :: cs =>
    if c = '\x22' then some ⟨[], cs, Nat.lt_succ_self _⟩
    else if c = '\\' then
      (escaped? cs).bind fun first =>
        (chars? first.rest).map fun others => (first.and others List.cons).behind c
    else (chars? cs).map fun others => (others.map (c :: ·)).behind c
termination_by cs => cs.length
decreasing_by
  · exact Nat.lt_succ_of_lt first.shorter
  · exact Nat.lt_succ_self _

/-- A string between its quotes. -/
def string? : Reader String := fun cs =>
  (mark? '\x22' cs).bind fun quote => (chars? quote.rest).map fun chars =>
    quote.and chars fun _ chars => String.ofList chars

-- ================================================================= documents

/-- The key of a member, with the colon behind it. -/
def key? : Reader String := fun cs =>
  (string? cs).bind fun key => (mark? ':' key.rest).map fun colon => key.and colon fun key _ => key

mutual
/-- A document. -/
def read? : Reader Json
  | [] => none
  | c :: cs =>
    if c = '\x22' then (string? (c :: cs)).map (·.map .string)
    else if c = '[' then
      if cs.head? = some ']' then (items? cs).map fun items => (items.map .array).behind c
      else (read? cs).bind fun first => (items? first.rest).map fun others =>
        (first.and others fun item items => .array (item :: items)).behind c
    else if c = '{' then
      if cs.head? = some '}' then (members? cs).map fun members => (members.map .object).behind c
      else (member? cs).bind fun first => (members? first.rest).map fun others =>
        (first.and others fun member members => .object (member :: members)).behind c
    else none
termination_by cs => cs.length
decreasing_by
  · exact Nat.lt_succ_self _
  · exact Nat.lt_succ_self _
  · exact Nat.lt_succ_of_lt first.shorter
  · exact Nat.lt_succ_self _
  · exact Nat.lt_succ_self _
  · exact Nat.lt_succ_of_lt first.shorter

/-- The items of an array that are still to come, and the closing bracket. -/
def items? : Reader (List Json)
  | [] => none
  | c :: cs =>
    if c = ']' then some ⟨[], cs, Nat.lt_succ_self _⟩
    else if c = ',' then
      (read? cs).bind fun first => (items? first.rest).map fun others =>
        (first.and others List.cons).behind c
    else none
termination_by cs => cs.length
decreasing_by
  · exact Nat.lt_succ_self _
  · exact Nat.lt_succ_of_lt first.shorter

/-- A member of an object. -/
def member? : Reader (String × Json) := fun cs =>
  (key? cs).bind fun key => (read? key.rest).map fun value => key.and value Prod.mk
termination_by cs => cs.length
decreasing_by exact key.shorter

/-- The members of an object that are still to come, and the closing brace. -/
def members? : Reader (List (String × Json))
  | [] => none
  | c :: cs =>
    if c = '}' then some ⟨[], cs, Nat.lt_succ_self _⟩
    else if c = ',' then
      (member? cs).bind fun first => (members? first.rest).map fun others =>
        (first.and others List.cons).behind c
    else none
termination_by cs => cs.length
decreasing_by
  · exact Nat.lt_succ_self _
  · exact Nat.lt_succ_of_lt first.shorter
end

/-- A document that is all of a text. -/
def ofText? (s : String) : Option Json :=
  (read? s.toList).bind fun r => if r.rest = [] then some r.value else none

-- ================================================================ what is read

/-- A reader reads a value off the front of a text and leaves a rest. -/
def Reads {α : Type} (reader : Reader α) (cs : List Char) (value : α) (rest : List Char) : Prop :=
  ∃ shorter, reader cs = some ⟨value, rest, shorter⟩

variable {cs rest : List Char}

/-- A character is read where it stands. -/
theorem reads_mark (mark : Char) (rest : List Char) : Reads (mark? mark) (mark :: rest) () rest :=
  ⟨Nat.lt_succ_self _, if_pos rfl⟩

/-- Each of the sixteen digits is read as the number that it is written for. -/
theorem hexValue?_hexDigit : ∀ n, n < 16 → hexValue? (hexDigit n) = some n := by
  decide

/-- A control character is read back from its number, of which the first two
digits are zero. -/
theorem reads_numbered {c : Char} (hc : c.toNat < 0x20) (rest : List Char) :
    Reads numbered? ('0' :: '0' :: hexDigit (c.toNat / 16) :: hexDigit (c.toNat % 16) :: rest) c
      rest := by
  have hhigh := hexValue?_hexDigit (c.toNat / 16) (by omega)
  have hlow := hexValue?_hexDigit (c.toNat % 16) (by omega)
  have hzero : hexValue? '0' = some 0 := by decide
  have hvalue : (0 * 16 + 0) * 256 + (c.toNat / 16 * 16 + c.toNat % 16) = c.toNat := by omega
  have hvalid : c.toNat.isValidChar := c.valid
  have hchar : charOf? c.toNat = some c := by rw [charOf?, if_pos hvalid, Char.ofNat_toNat]
  refine ⟨by simp only [List.length_cons]; omega, ?_⟩
  simp only [numbered?, hzero, hhigh, hlow, hvalue, hchar, Option.bind_eq_bind, Option.bind_some]
  rfl

/-- A control character without a letter of its own is read back from its
escape. -/
theorem reads_control {c : Char} (hc : c.toNat < 0x20) (rest : List Char) :
    Reads escaped? ('u' :: '0' :: '0' :: hexDigit (c.toNat / 16) :: hexDigit (c.toNat % 16) :: rest)
      c rest := by
  obtain ⟨hless, hnumber⟩ := reads_numbered hc rest
  exact ⟨Nat.lt_succ_of_lt hless, by rw [escaped?, if_pos rfl, hnumber]; rfl⟩

/-- A letter that names a character is read as that character. -/
theorem reads_named {letter c : Char} (hletter : letter ≠ 'u') (h : named? letter = some c) :
    Reads escaped? (letter :: rest) c rest :=
  ⟨Nat.lt_succ_self _, by rw [escaped?, if_neg hletter, h]; rfl⟩

/-- What is written behind a backslash is one of a string's characters. -/
theorem reads_behind_backslash {c : Char} {s before : List Char} (hc : Reads escaped? before c cs)
    (h : Reads chars? cs s rest) : Reads chars? ('\\' :: before) (c :: s) rest := by
  obtain ⟨hshorter, hc⟩ := hc
  obtain ⟨hless, h⟩ := h
  refine ⟨by simp only [List.length_cons]; omega, ?_⟩
  rw [chars?, if_neg (by decide), if_pos rfl, hc, Option.bind_some, h]
  rfl

/-- A character that is neither a quote nor a backslash stands for itself. -/
theorem reads_plain {c : Char} {s : List Char} (hquote : c ≠ '\x22') (hslash : c ≠ '\\')
    (h : Reads chars? cs s rest) : Reads chars? (c :: cs) (c :: s) rest := by
  obtain ⟨hless, h⟩ := h
  refine ⟨by simp only [List.length_cons]; omega, ?_⟩
  rw [chars?, if_neg hquote, if_neg hslash, h]
  rfl

/-- A character is read back from the way it is written, in front of a
string's other characters. Of the characters that are escaped some have a
letter, and the other control characters a number. -/
theorem reads_escapeChar {s : List Char} (h : Reads chars? cs s rest) (c : Char) :
    Reads chars? (escapeChar c ++ cs) (c :: s) rest := by
  have hnamed : ∀ {letter c : Char}, letter ≠ 'u' → named? letter = some c →
      Reads chars? ('\\' :: letter :: cs) (c :: s) rest :=
    fun hletter hc => reads_behind_backslash (reads_named hletter hc) h
  rw [escapeChar]
  split_ifs with hquote hslash hback hfeed hnewline hreturn htab hcontrol
  · subst hquote
    exact hnamed (by decide) (by decide)
  · subst hslash
    exact hnamed (by decide) (by decide)
  · subst hback
    exact hnamed (by decide) (by decide)
  · subst hfeed
    exact hnamed (by decide) (by decide)
  · subst hnewline
    exact hnamed (by decide) (by decide)
  · subst hreturn
    exact hnamed (by decide) (by decide)
  · subst htab
    exact hnamed (by decide) (by decide)
  · exact reads_behind_backslash (reads_control hcontrol cs) h
  · exact reads_plain hquote hslash h

/-- The characters of a string end at the quote that is not escaped. -/
theorem reads_chars (s rest : List Char) :
    Reads chars? (s.flatMap escapeChar ++ '\x22' :: rest) s rest := by
  induction s with
  | nil => exact ⟨Nat.lt_succ_self _, by
    change chars? ('\x22' :: rest) = _
    rw [chars?, if_pos rfl]⟩
  | cons c s ih =>
    rw [List.flatMap_cons, List.append_assoc]
    exact reads_escapeChar ih c

/-- A written string in front of a rest: a quote, the escaped characters, a
quote, the rest. -/
theorem writeString_append (s : String) (rest : List Char) :
    writeString s ++ rest = '\x22' :: (s.toList.flatMap escapeChar ++ '\x22' :: rest) := by
  simp only [writeString, List.cons_append, List.append_assoc, List.nil_append]

/-- A string is read back from the way it is written. It ends at the first
quote that is not escaped, and none of those inside is left as it is. -/
theorem reads_writeString (s : String) (rest : List Char) :
    Reads string? (writeString s ++ rest) s rest := by
  obtain ⟨hless, hchars⟩ := reads_chars s.toList rest
  rw [writeString_append]
  obtain ⟨hquote, hmark⟩ := reads_mark '\x22' (s.toList.flatMap escapeChar ++ '\x22' :: rest)
  refine ⟨Nat.lt_trans hless hquote, ?_⟩
  rw [string?, hmark, Option.bind_some, hchars]
  exact congrArg some (by simp [Reading.and])

/-- A key is read back, up to the colon behind it. -/
theorem reads_key (key : String) (rest : List Char) :
    Reads key? (writeString key ++ ':' :: rest) key rest := by
  obtain ⟨hless, hstring⟩ := reads_writeString key (':' :: rest)
  obtain ⟨hcolon, hmark⟩ := reads_mark ':' rest
  refine ⟨Nat.lt_trans hcolon hless, ?_⟩
  rw [key?, hstring, Option.bind_some, hmark]
  rfl

-- ============================================================ documents read back

mutual
/-- A document of nothing but strings, arrays and objects. -/
def IsTextual : Json → Prop
  | .string _ => True
  | .array items => AreTextual items
  | .object members => HoldTextual members
  | .null | .bool _ | .int _ | .float _ => False

/-- Documents of nothing but strings, arrays and objects. -/
def AreTextual : List Json → Prop
  | [] => True
  | item :: items => item.IsTextual ∧ AreTextual items

/-- Members whose values are documents of nothing but strings, arrays and
objects. -/
def HoldTextual : List (String × Json) → Prop
  | [] => True
  | (_, value) :: members => value.IsTextual ∧ HoldTextual members
end

/-- Members are textual if the value of each of them is. -/
theorem holdTextual_iff {members : List (String × Json)} :
    HoldTextual members ↔ ∀ member ∈ members, member.2.IsTextual := by
  induction members with
  | nil => simp [HoldTextual]
  | cons member members ih => simp [HoldTextual, ih]

theorem holdTextual_append {members more : List (String × Json)} :
    HoldTextual (members ++ more) ↔ HoldTextual members ∧ HoldTextual more := by
  simp only [holdTextual_iff, List.forall_mem_append]

/-- No item starts with the bracket that closes an array. -/
theorem head?_compactOnto_ne {j : Json} (h : j.IsTextual) (rest : List Char) :
    (compactOnto j rest).head? ≠ some ']' := by
  cases j with
  | string value => exact fun hclose => absurd hclose (by simp [compactOnto, writeString])
  | array items => cases items <;> simp [compactOnto]
  | object members => cases members <;> simp [compactOnto]
  | _ => exact h.elim

-- Each way in which a document, or what is to come of it, is put together is read back once its
-- parts are.
variable {mid : List Char} {j value : Json} {items : List Json} {members : List (String × Json)}

/-- A document that starts with a quote is a string. -/
theorem reads_string (s : String) : Reads read? (writeString s ++ rest) (.string s) rest := by
  have h := reads_writeString s rest
  rw [writeString_append] at h ⊢
  obtain ⟨hless, h⟩ := h
  refine ⟨hless, ?_⟩
  rw [read?, if_pos rfl, h]
  rfl

theorem reads_itemsEnd (rest : List Char) : Reads items? (']' :: rest) [] rest :=
  ⟨Nat.lt_succ_self _, by rw [items?, if_pos rfl]⟩

/-- Behind a comma there is one more item, and then the others. -/
theorem reads_items (hj : Reads read? cs j mid) (hitems : Reads items? mid items rest) :
    Reads items? (',' :: cs) (j :: items) rest := by
  obtain ⟨hmid, hj⟩ := hj
  obtain ⟨hrest, hitems⟩ := hitems
  refine ⟨Nat.lt_succ_of_lt (Nat.lt_trans hrest hmid), ?_⟩
  rw [items?, if_neg (by decide), if_pos rfl, hj, Option.bind_some, hitems]
  rfl

theorem reads_emptyArray : Reads read? ('[' :: ']' :: rest) (.array []) rest := by
  obtain ⟨hrest, hitems⟩ := reads_itemsEnd rest
  refine ⟨Nat.lt_succ_of_lt hrest, ?_⟩
  rw [read?, if_neg (by decide), if_pos rfl, if_pos List.head?_cons, hitems]
  rfl

/-- An array with an item at least. The first item does not start with the
closing bracket, which tells such an array from an empty one. -/
theorem reads_array (hopen : cs.head? ≠ some ']') (hj : Reads read? cs j mid)
    (hitems : Reads items? mid items rest) :
    Reads read? ('[' :: cs) (.array (j :: items)) rest := by
  obtain ⟨hmid, hj⟩ := hj
  obtain ⟨hrest, hitems⟩ := hitems
  refine ⟨Nat.lt_succ_of_lt (Nat.lt_trans hrest hmid), ?_⟩
  rw [read?, if_neg (by decide), if_pos rfl, if_neg hopen, hj, Option.bind_some, hitems]
  rfl

/-- A member is its key, a colon and its value. -/
theorem reads_member (hvalue : Reads read? cs value rest) (key : String) :
    Reads member? (writeString key ++ ':' :: cs) (key, value) rest := by
  obtain ⟨hrest, hvalue⟩ := hvalue
  obtain ⟨hless, hkey⟩ := reads_key key cs
  refine ⟨Nat.lt_trans hrest hless, ?_⟩
  rw [member?, hkey, Option.bind_some, hvalue]
  rfl

theorem reads_membersEnd (rest : List Char) : Reads members? ('}' :: rest) [] rest :=
  ⟨Nat.lt_succ_self _, by rw [members?, if_pos rfl]⟩

/-- Behind a comma there is one more member, and then the others. -/
theorem reads_members (key : String) (hvalue : Reads read? cs value mid)
    (hmembers : Reads members? mid members rest) :
    Reads members? (',' :: (writeString key ++ ':' :: cs)) ((key, value) :: members) rest := by
  obtain ⟨hmid, hmember⟩ := reads_member hvalue key
  obtain ⟨hrest, hmembers⟩ := hmembers
  refine ⟨Nat.lt_succ_of_lt (Nat.lt_trans hrest hmid), ?_⟩
  rw [members?, if_neg (by decide), if_pos rfl, hmember, Option.bind_some, hmembers]
  rfl

theorem reads_emptyObject : Reads read? ('{' :: '}' :: rest) (.object []) rest := by
  obtain ⟨hrest, hmembers⟩ := reads_membersEnd rest
  refine ⟨Nat.lt_succ_of_lt hrest, ?_⟩
  rw [read?, if_neg (by decide), if_neg (by decide), if_pos rfl,
    if_pos List.head?_cons, hmembers]
  rfl

/-- An object with a member at least. -/
theorem reads_object (key : String) (hvalue : Reads read? cs value mid)
    (hmembers : Reads members? mid members rest) :
    Reads read? ('{' :: (writeString key ++ ':' :: cs)) (.object ((key, value) :: members))
      rest := by
  obtain ⟨hmid, hmember⟩ := reads_member hvalue key
  obtain ⟨hrest, hmembers⟩ := hmembers
  have hopen : (writeString key ++ ':' :: cs).head? ≠ some '}' := by simp [writeString]
  refine ⟨Nat.lt_succ_of_lt (Nat.lt_trans hrest hmid), ?_⟩
  rw [read?, if_neg (by decide), if_neg (by decide), if_pos rfl, if_neg hopen, hmember,
    Option.bind_some, hmembers]
  rfl

mutual
/-- A document is read back from its form, whatever stands behind it. The
induction is on the document. The rest may be anything, since each form shows
where it ends. -/
theorem reads_compactOnto : ∀ (j : Json), j.IsTextual → ∀ rest : List Char,
    Reads read? (compactOnto j rest) j rest
  | .string value, _, _ => reads_string value
  | .array [], _, _ => reads_emptyArray
  | .array (item :: items), ⟨hitem, hitems⟩, rest =>
    reads_array (head?_compactOnto_ne hitem _) (reads_compactOnto item hitem _)
      (reads_compactItems items hitems rest)
  | .object [], _, _ => reads_emptyObject
  | .object ((key, value) :: members), ⟨hvalue, hmembers⟩, rest =>
    reads_object key (reads_compactOnto value hvalue _) (reads_compactMembers members hmembers rest)

/-- The items of an array that are still to come are read back, up to the
closing bracket. -/
theorem reads_compactItems : ∀ (items : List Json), AreTextual items → ∀ rest : List Char,
    Reads items? (compactItems items rest) items rest
  | [], _, rest => reads_itemsEnd rest
  | item :: items, ⟨hitem, hitems⟩, rest =>
    reads_items (reads_compactOnto item hitem _) (reads_compactItems items hitems rest)

/-- The members of an object that are still to come are read back, up to the
closing brace. -/
theorem reads_compactMembers : ∀ (members : List (String × Json)), HoldTextual members →
    ∀ rest : List Char, Reads members? (compactMembers members rest) members rest
  | [], _, rest => reads_membersEnd rest
  | (key, value) :: members, ⟨hvalue, hmembers⟩, rest =>
    reads_members key (reads_compactOnto value hvalue _)
      (reads_compactMembers members hmembers rest)
end

/-- A document is read back from its text. Nothing may stand behind it then,
not even a space. -/
theorem ofText?_compact {j : Json} (h : j.IsTextual) : ofText? j.compact = some j := by
  obtain ⟨hless, hread⟩ := reads_compactOnto j h []
  rw [ofText?, compact, String.toList_ofList, hread, Option.bind_some, if_pos rfl]

end UiScript.Json
