/-
Shapes: values as debugging output shows them. A shape is a plain text, a
list, a constructor with its items, or a constructor with named fields. It
is written on one line, `Name(a, b)`, `Name { field: a }` and `[a, b]`, or
with one item on a line, four spaces of indentation and a comma after each.
-/
import UiScript.Text.Quoted

namespace UiScript.Text

/-- A value as debugging output shows it. -/
inductive Shape where
  /-- A text that stands for itself. -/
  | text (s : String)
  | list (items : List Shape)
  /-- A constructor, or with an empty name a tuple. -/
  | apply (name : String) (items : List Shape)
  | record (name : String) (fields : List (String × Shape))

namespace Shape

-- ============================================================= on one line

mutual
/-- A shape on one line, in front of `rest`. -/
def lineOnto : Shape → List Char → List Char
  | .text s, rest => s.toList ++ rest
  | .list items, rest => '[' :: lineItems items (']' :: rest)
  | .apply name items, rest => name.toList ++ '(' :: lineItems items (')' :: rest)
  | .record name fields, rest =>
    name.toList ++ ' ' :: '{' :: ' ' :: lineFields fields (' ' :: '}' :: rest)

/-- Items with a comma and a space between them, in front of `rest`. -/
def lineItems : List Shape → List Char → List Char
  | [], rest => rest
  | [item], rest => lineOnto item rest
  | item :: items, rest => lineOnto item (',' :: ' ' :: lineItems items rest)

/-- Fields with a comma and a space between them, in front of `rest`. -/
def lineFields : List (String × Shape) → List Char → List Char
  | [], rest => rest
  | [(field, item)], rest => field.toList ++ ':' :: ' ' :: lineOnto item rest
  | (field, item) :: fields, rest =>
    field.toList ++ ':' :: ' ' :: lineOnto item (',' :: ' ' :: lineFields fields rest)
end

/-- A shape on one line. -/
def line (shape : Shape) : String := String.ofList (shape.lineOnto [])

-- ======================================================== one item on a line

/-- The indentation of a level. -/
def indentation (level : Nat) : List Char := List.replicate (4 * level) ' '

mutual
/-- A shape with one item on a line, in front of `rest`; `level` is its depth. -/
def blockOnto (level : Nat) : Shape → List Char → List Char
  | .text s, rest => s.toList ++ rest
  | .list [], rest => '[' :: ']' :: rest
  | .list items, rest =>
    '[' :: '\n' :: blockItems (level + 1) items (indentation level ++ ']' :: rest)
  | .apply name items, rest =>
    name.toList ++ '(' :: '\n' :: blockItems (level + 1) items (indentation level ++ ')' :: rest)
  | .record name fields, rest =>
    name.toList ++ ' ' :: '{' :: '\n'
      :: blockFields (level + 1) fields (indentation level ++ '}' :: rest)

/-- Items, each on a line of its own, in front of `rest`. -/
def blockItems (level : Nat) : List Shape → List Char → List Char
  | [], rest => rest
  | item :: items, rest =>
    indentation level ++ blockOnto level item (',' :: '\n' :: blockItems level items rest)

/-- Fields, each on a line of its own, in front of `rest`. -/
def blockFields (level : Nat) : List (String × Shape) → List Char → List Char
  | [], rest => rest
  | (field, item) :: fields, rest =>
    indentation level ++ field.toList ++ ':' :: ' '
      :: blockOnto level item (',' :: '\n' :: blockFields level fields rest)
end

/-- A shape with one item on a line. -/
def block (shape : Shape) : String := String.ofList (shape.blockOnto 0 [])

-- ========================================================= common shapes

/-- A string in quotes. -/
def string (s : String) : Shape := .text (Text.quoted s)

/-- What may be missing. -/
def option : Option Shape → Shape
  | none => .text "None"
  | some shape => .apply "Some" [shape]

end Shape

end UiScript.Text
