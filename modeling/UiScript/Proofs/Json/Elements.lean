/-
What an element is in JSON is all of it: the element is read back from its
text, with its attributes in their order, and no text of its own is told
apart from an empty one. What is not there is left out of an object, and
nothing that is there is left out; so an object is read member by member,
from an element with nothing to it. An array is read as a fragment.

# Main statements

* `setMembers?_append`: members are read one after the other.
* `ofJson?_json`, `ofJsons?_jsons`: elements are read back from documents.
* `compact_read_back`: elements and fragments are read back from their texts,
  so the texts tell them apart.
-/
import UiScript.Proofs.Json.Reading
import UiScript.Value

namespace UiScript.Element

-- ============================================================ reading elements

/-- The attributes that the members of an object stand for. -/
def attributesOf? : List (String × Json) → Option (List (String × String))
  | [] => some []
  | (key, .string value) :: members => (attributesOf? members).map ((key, value) :: ·)
  | _ :: _ => none

mutual
/-- The element that an object stands for; what the object leaves out is
empty. -/
def ofJson? : Json → Option Element
  | .object members => setMembers? members (ofTag "")
  | _ => none

/-- An element with what the members of an object stand for. -/
def setMembers? : List (String × Json) → Element → Option Element
  | [], e => some e
  | (key, value) :: members, e => (setMember? key value e).bind (setMembers? members)

/-- An element with what one member stands for. -/
def setMember? (key : String) : Json → Element → Option Element
  | .string value, e =>
    if key = "tag" then some { e with tag := value }
    else if key = "text" then some { e with text := some value }
    else none
  | .object members, e =>
    if key = "attributes" then
      (attributesOf? members).map fun attributes => { e with attributes := attributes }
    else none
  | .array items, e =>
    if key = "children" then (ofJsons? items).map fun children => { e with children := children }
    else none
  | _, _ => none

/-- The elements that documents stand for. -/
def ofJsons? : List Json → Option (List Element)
  | [] => some []
  | item :: items => (ofJson? item).bind fun e => (ofJsons? items).map (e :: ·)
end

/-- Members are read one after the other, each into the element so far. -/
theorem setMembers?_append (before after : List (String × Json)) (e : Element) :
    setMembers? (before ++ after) e = (setMembers? before e).bind (setMembers? after) := by
  induction before generalizing e with
  | nil => rw [List.nil_append, setMembers?, Option.bind_some]
  | cons member before ih =>
    obtain ⟨key, value⟩ := member
    simp only [List.cons_append, setMembers?, funext ih, Option.bind_assoc]

-- =========================================================== parts of an object

/-- The member that holds attributes, if there are any. -/
def attributePart (attributes : List (String × String)) : List (String × Json) :=
  if attributes.isEmpty then [] else
    [("attributes", .object (attributes.map fun a => (a.1, .string a.2)))]

/-- The member that holds an element's own text, if it has one. -/
def textPart (text : Option String) : List (String × Json) :=
  text.toList.map fun t => ("text", .string t)

/-- The member that holds children, if there are any. -/
def childPart (children : List Element) : List (String × Json) :=
  if children.isEmpty then [] else [("children", .array (jsons children))]

/-- An element as an object: its tag, and then the parts that are there. -/
theorem json_eq (tag : String) (attributes : List (String × String)) (text : Option String)
    (children : List Element) : json ⟨tag, attributes, text, children⟩
      = .object (("tag", .string tag)
        :: (attributePart attributes ++ textPart text ++ childPart children)) := by
  rw [json]
  rfl

/-- Attributes are read back from their members, in their order. -/
theorem attributesOf?_members (attributes : List (String × String)) :
    attributesOf? (attributes.map fun a => (a.1, .string a.2)) = some attributes := by
  induction attributes with
  | nil => rfl
  | cons a attributes ih => rw [List.map_cons, attributesOf?, ih, Option.map_some]

variable (tag : String) (attributes : List (String × String)) (text : Option String)

/-- The attributes are read back from their part; left out, there are none. -/
theorem setMembers?_attributePart :
    setMembers? (attributePart attributes) ⟨tag, [], none, []⟩
      = some ⟨tag, attributes, none, []⟩ := by
  cases attributes with
  | nil => rfl
  | cons a attributes =>
    have hattributes := attributesOf?_members (a :: attributes)
    rw [List.map_cons] at hattributes
    simp [attributePart, setMembers?, setMember?, hattributes]

/-- The text is read back from its part; left out, there is none. An empty
text is not left out. -/
theorem setMembers?_textPart :
    setMembers? (textPart text) ⟨tag, attributes, none, []⟩
      = some ⟨tag, attributes, text, []⟩ := by
  cases text with
  | none => rfl
  | some text => simp [textPart, setMembers?, setMember?]

/-- The children are read back from their part, given that each of them is. -/
theorem setMembers?_childPart {children : List Element}
    (h : ofJsons? (jsons children) = some children) :
    setMembers? (childPart children) ⟨tag, attributes, text, []⟩
      = some ⟨tag, attributes, text, children⟩ := by
  cases children with
  | nil => rfl
  | cons child children => simp [childPart, setMembers?, setMember?, h]

mutual
/-- An element is read back from its document. The induction is on the tree;
each part of the object is read back, or left out and empty. -/
theorem ofJson?_json : ∀ e : Element, ofJson? e.json = some e
  | ⟨tag, attributes, text, children⟩ => by
    rw [json_eq, ofJson?, setMembers?, setMember?, if_pos rfl, Option.bind_some,
      setMembers?_append, setMembers?_append, ofTag, setMembers?_attributePart, Option.bind_some,
      setMembers?_textPart, Option.bind_some, setMembers?_childPart _ _ _ (ofJsons?_jsons children)]

/-- Elements are read back from their documents. -/
theorem ofJsons?_jsons : ∀ es : List Element, ofJsons? (jsons es) = some es
  | [] => rfl
  | e :: es => by
    rw [jsons, ofJsons?, ofJson?_json e, Option.bind_some, ofJsons?_jsons es, Option.map_some]
end

-- ====================================================== elements as documents

/-- Attributes are strings. -/
theorem holdTextual_attributePart (attributes : List (String × String)) :
    Json.HoldTextual (attributePart attributes) := by
  cases attributes with
  | nil => trivial
  | cons a attributes =>
    have hvalues : Json.HoldTextual ((a :: attributes).map fun a => (a.1, .string a.2)) := by
      refine Json.holdTextual_iff.2 fun member hmember => ?_
      obtain ⟨a, -, rfl⟩ := List.mem_map.1 hmember
      trivial
    exact ⟨hvalues, trivial⟩

theorem holdTextual_textPart (text : Option String) : Json.HoldTextual (textPart text) := by
  cases text with
  | none => trivial
  | some text => exact ⟨trivial, trivial⟩

/-- Children are objects, as textual as they are each. -/
theorem holdTextual_childPart {children : List Element} (h : Json.AreTextual (jsons children)) :
    Json.HoldTextual (childPart children) := by
  cases children with
  | nil => trivial
  | cons child children => exact ⟨h, trivial⟩

mutual
/-- The document of an element is made of strings, arrays and objects. -/
theorem isTextual_json : ∀ e : Element, e.json.IsTextual
  | ⟨tag, attributes, text, children⟩ => by
    rw [json_eq, Json.IsTextual, Json.HoldTextual, Json.holdTextual_append,
      Json.holdTextual_append]
    exact ⟨trivial, ⟨holdTextual_attributePart attributes, holdTextual_textPart text⟩,
      holdTextual_childPart (areTextual_jsons children)⟩

/-- The documents of elements are textual. The induction goes along with that
on elements. -/
theorem areTextual_jsons : ∀ es : List Element, Json.AreTextual (jsons es)
  | [] => trivial
  | e :: es => ⟨isTextual_json e, areTextual_jsons es⟩
end

end UiScript.Element

namespace UiScript.Value

-- =============================================================== read from texts

/-- The element or the fragment that a document stands for. -/
def ofJson? : Json → Option Value
  | .object members => (Element.ofJson? (.object members)).map .element
  | .array items => (Element.ofJsons? items).map .fragment
  | _ => none

/-- The element or the fragment that a text without any space stands for. -/
def ofCompact? (text : String) : Option Value := (Json.ofText? text).bind ofJson?

/-- An element is read back from its text. -/
theorem ofCompact?_element (e : Element) : ofCompact? e.json.compact = some (.element e) := by
  have hread := Element.ofJson?_json e
  rw [ofCompact?, Json.ofText?_compact (Element.isTextual_json e), Option.bind_some]
  obtain ⟨tag, attributes, text, children⟩ := e
  rw [Element.json_eq] at hread ⊢
  rw [ofJson?, hread, Option.map_some]

/-- A fragment is read back from its text, and is not taken for an element. -/
theorem ofCompact?_fragment (es : List Element) :
    ofCompact? (Value.fragment es).json.compact = some (.fragment es) := by
  have htextual : (Value.fragment es).json.IsTextual := Element.areTextual_jsons es
  rw [ofCompact?, Json.ofText?_compact htextual, Option.bind_some, json, ofJson?,
    Element.ofJsons?_jsons, Option.map_some]

/-- Elements and fragments are read back from their texts, which tell them
apart: each has its tag, its attributes in their order, its text if it has
one, and its children. -/
theorem compact_read_back :
    (∀ e : Element, ofCompact? (Value.element e).json.compact = some (.element e))
      ∧ (∀ es : List Element, ofCompact? (Value.fragment es).json.compact = some (.fragment es))
      ∧ (∀ m n : Element, m.json.compact = n.json.compact ↔ m = n)
      ∧ ∀ ms ns : List Element,
        (Value.fragment ms).json.compact = (Value.fragment ns).json.compact ↔ ms = ns := by
  refine ⟨ofCompact?_element, ofCompact?_fragment, fun m n => ⟨fun h => ?_, fun h => h ▸ rfl⟩,
    fun ms ns => ⟨fun h => ?_, fun h => h ▸ rfl⟩⟩
  · have hsame : some (Value.element m) = some (.element n) := by
      rw [← ofCompact?_element m, ← ofCompact?_element n, h]
    injection hsame with hsame
    injection hsame
  · have hsame : some (Value.fragment ms) = some (.fragment ns) := by
      rw [← ofCompact?_fragment ms, ← ofCompact?_fragment ns, h]
    injection hsame with hsame
    injection hsame

end UiScript.Value
