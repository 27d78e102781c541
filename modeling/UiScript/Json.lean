/-
JSON documents and their two written forms: `compact` without any space,
and `pretty` with one item on a line and two spaces of indentation. Objects
keep the order of their members. Numbers that are infinite or not numbers
have no form of their own and are written `null`.
-/
import UiScript.Decimal.Layout
import UiScript.Text.Quoted

namespace UiScript

/-- A JSON document. -/
inductive Json where
  | null
  | bool (value : Bool)
  | int (value : Int)
  | float (value : Float)
  | string (value : String)
  | array (items : List Json)
  | object (members : List (String × Json))

namespace Json

-- ================================================================= strings

/-- A hexadecimal digit. -/
def hexDigit (n : Nat) : Char := if n < 10 then Char.ofNat (48 + n) else Char.ofNat (87 + n)

/-- How a character of a string is written. -/
def escapeChar (c : Char) : List Char :=
  if c = '\x22' then ['\\', '\x22']
  else if c = '\\' then ['\\', '\\']
  else if c = '\x08' then ['\\', 'b']
  else if c = '\x0c' then ['\\', 'f']
  else if c = '\n' then ['\\', 'n']
  else if c = '\r' then ['\\', 'r']
  else if c = '\t' then ['\\', 't']
  else if c.toNat < 0x20 then ['\\', 'u', '0', '0', hexDigit (c.toNat / 16), hexDigit (c.toNat % 16)]
  else [c]

/-- A string between its quotes. -/
def writeString (s : String) : List Char := '\x22' :: s.toList.flatMap escapeChar ++ ['\x22']

-- ================================================================= numbers

/-- A double, or `null` in place of one that is no finite number. -/
def writeFloat (x : Float) : String :=
  match FloatParts.ofFloat x with
  | .nan | .infinity _ => "null"
  | parts => Decimal.Layout.json.writeParts parts

-- ============================================================ written forms

/-- The form of what has no parts. -/
def writeBool (value : Bool) : String := if value then "true" else "false"

mutual
/-- The form without any space, in front of `rest`. -/
def compactOnto : Json → List Char → List Char
  | .null, rest => "null".toList ++ rest
  | .bool value, rest => (writeBool value).toList ++ rest
  | .int value, rest => (toString value).toList ++ rest
  | .float value, rest => (writeFloat value).toList ++ rest
  | .string value, rest => writeString value ++ rest
  | .array [], rest => '[' :: ']' :: rest
  | .array (item :: items), rest => '[' :: compactOnto item (compactItems items rest)
  | .object [], rest => '{' :: '}' :: rest
  | .object ((key, value) :: members), rest =>
    '{' :: (writeString key ++ ':' :: compactOnto value (compactMembers members rest))

/-- The items of an array after the first one, and the closing bracket, in
front of `rest`. -/
def compactItems : List Json → List Char → List Char
  | [], rest => ']' :: rest
  | item :: items, rest => ',' :: compactOnto item (compactItems items rest)

/-- The members of an object after the first one, and the closing brace, in
front of `rest`. -/
def compactMembers : List (String × Json) → List Char → List Char
  | [], rest => '}' :: rest
  | (key, value) :: members, rest =>
    ',' :: (writeString key ++ ':' :: compactOnto value (compactMembers members rest))
end

/-- The form without any space. -/
def compact (j : Json) : String := String.ofList (j.compactOnto [])

/-- A line break and the indentation of a level. -/
def newLine (level : Nat) : List Char := '\n' :: List.replicate (2 * level) ' '

mutual
/-- The form with one item on a line, in front of `rest`; `level` is the depth
of the document. -/
def prettyOnto (level : Nat) : Json → List Char → List Char
  | .null, rest => "null".toList ++ rest
  | .bool value, rest => (writeBool value).toList ++ rest
  | .int value, rest => (toString value).toList ++ rest
  | .float value, rest => (writeFloat value).toList ++ rest
  | .string value, rest => writeString value ++ rest
  | .array [], rest => '[' :: ']' :: rest
  | .array (item :: items), rest =>
    '[' :: (newLine (level + 1) ++ prettyOnto (level + 1) item (prettyItems level items rest))
  | .object [], rest => '{' :: '}' :: rest
  | .object ((key, value) :: members), rest =>
    '{' :: (newLine (level + 1) ++ writeString key
      ++ ':' :: ' ' :: prettyOnto (level + 1) value (prettyMembers level members rest))

/-- The items of an array after the first one, and the closing bracket, in
front of `rest`. -/
def prettyItems (level : Nat) : List Json → List Char → List Char
  | [], rest => newLine level ++ ']' :: rest
  | item :: items, rest =>
    ',' :: (newLine (level + 1) ++ prettyOnto (level + 1) item (prettyItems level items rest))

/-- The members of an object after the first one, and the closing brace, in
front of `rest`. -/
def prettyMembers (level : Nat) : List (String × Json) → List Char → List Char
  | [], rest => newLine level ++ '}' :: rest
  | (key, value) :: members, rest =>
    ',' :: (newLine (level + 1) ++ writeString key
      ++ ':' :: ' ' :: prettyOnto (level + 1) value (prettyMembers level members rest))
end

/-- The form with one item on a line. -/
def pretty (j : Json) : String := String.ofList (j.prettyOnto 0 [])

end Json

end UiScript
