/-
Values: what expressions come to. Scalars come from literals, elements and
fragments from operations.

# Main statements

* `renderElement_eq` — a value collapses into its only element, or into a
  fragment of its elements.
-/
import UiScript.Element.Written
import UiScript.Program.Written

namespace UiScript

open Text

/-- What an expression comes to. -/
inductive Value where
  | string (value : String)
  | number (value : Number)
  | boolean (value : Bool)
  | nil
  /-- A symbol, without its colon. -/
  | symbol (name : String)
  | element (element : Element)
  /-- Several elements side by side. -/
  | fragment (elements : List Element)
deriving DecidableEq, Inhabited

namespace Value

/-- The value of a literal. -/
def ofLiteral : Literal → Value
  | .string value => .string value
  | .number value => .number value
  | .boolean value => .boolean value
  | .nil => .nil
  | .symbol name => .symbol name

/-- The type of a value, as messages name it. -/
def typeName : Value → String
  | .string _ => "string"
  | .number _ => "number"
  | .boolean _ => "boolean"
  | .nil => "nil"
  | .symbol _ => "symbol"
  | .element _ => "node"
  | .fragment _ => "fragment"

/-- Whether a value is an element or several. -/
def isRenderable : Value → Bool
  | .element _ | .fragment _ => true
  | _ => false

/-- The element that a value is. -/
def element? : Value → Option Element
  | .element e => some e
  | _ => none

-- ================================================================= as text

/-- A value as it is displayed. -/
def text : Value → String
  | .string value => value
  | .number value => value.text
  | .boolean value => toString value
  | .nil => "nil"
  | .symbol name => ":" ++ name
  | .element e => e.outline
  | .fragment es => String.join (es.map Element.outline)

/-- A value as debugging output shows it. -/
def shape : Value → Shape
  | .string value => .apply "Str" [.string value]
  | .number value => .apply "Number" [value.shape]
  | .boolean value => .apply "Bool" [.text (toString value)]
  | .nil => .text "Nil"
  | .symbol name => .apply "Symbol" [.string name]
  | .element e => .apply "Node" [e.shape]
  | .fragment es => .apply "Fragment" [.list (Element.shapes es)]

/-- A value in JSON; symbols keep their colon. -/
def json : Value → Json
  | .string value => .string value
  | .number (.int n) => .int n
  | .number (.float x) => .float x
  | .boolean value => .bool value
  | .nil => .null
  | .symbol name => .string (":" ++ name)
  | .element e => e.json
  | .fragment es => .array (Element.jsons es)

-- ============================================================= as elements

/-- The elements that a value contributes to its parent; scalars become bare
text, nil nothing. -/
def elements : Value → List Element
  | .element e => [e]
  | .fragment es => es
  | .nil => []
  | scalar => [.ofText scalar.text]

/-- The one element that a value collapses into; several are held by a
fragment. -/
def renderElement : Value → Element
  | .element e => e
  | value =>
    match value.elements with
    | [e] => if e.tag = Element.fragmentTag then .fragment [e] else e
    | es => .fragment es

/-- A value collapses into its only element, or into a fragment of its
elements. In either case the elements of the value are what is shown. -/
theorem renderElement_eq (v : Value) :
    v.elements = [v.renderElement] ∨ v.renderElement = .fragment v.elements := by
  cases v with
  | element e => exact Or.inl rfl
  | _ =>
    simp only [renderElement]
    split
    · next e h =>
      split
      · exact Or.inr (by rw [h])
      · exact Or.inl h
    · exact Or.inr rfl

end Value

end UiScript
