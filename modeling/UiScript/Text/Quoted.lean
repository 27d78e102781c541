/-
Quoted text, as outlines and debugging output write it: every character on
one line, between two quotes. NUL, tab, carriage return and newline have a
letter of their own; the backslash and the quote in use are written behind
a backslash; what leaves no mark of its own is written by its number, in
lower-case hexadecimal. Everything else is written as itself.
-/
import UiScript.Text.Unprinted

namespace UiScript.Text

-- ============================================================= one character

/-- The digits of a number, in lower-case hexadecimal. -/
def hexDigits (n : Nat) : List Char := Nat.toDigits 16 n

/-- How a character is written between two quotes. -/
def encodeChar (quote c : Char) : List Char :=
  if c = '\x00' then ['\\', '0']
  else if c = '\t' then ['\\', 't']
  else if c = '\r' then ['\\', 'r']
  else if c = '\n' then ['\\', 'n']
  else if c = '\\' then ['\\', '\\']
  else if c = quote then ['\\', c]
  else if isUnprinted c then ['\\', 'u', '{'] ++ hexDigits c.toNat ++ ['}']
  else [c]

-- ================================================================ whole texts

/-- How characters are written between two quotes. -/
def encode (quote : Char) (cs : List Char) : List Char := cs.flatMap (encodeChar quote)

/-- The text between double quotes. -/
def quoted (s : String) : String := String.ofList (['\x22'] ++ encode '\x22' s.toList ++ ['\x22'])

/-- The character between single quotes. -/
def quotedChar (c : Char) : String := String.ofList (['\x27'] ++ encodeChar '\x27' c ++ ['\x27'])

end UiScript.Text
