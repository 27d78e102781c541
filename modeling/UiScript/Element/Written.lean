/-
Elements as text: the text that they hold, an outline with one element on a
line, debugging output, and JSON. Text and outline are read off with a list
of the elements still to come, children before what follows their parent,
so that neither needs a stack as deep as the tree.

# Main statements

* `textFrom_cons`, `outlineFrom_cons` — an element comes first, then its
  children, then the rest.
-/
import UiScript.Element.Basic
import UiScript.Json
import UiScript.Text.Shape

namespace UiScript.Element

open Text

-- ================================================================== content

/-- The text of the elements `pending` and of all below them, in order, behind
`done`. -/
def textFrom (done : String) (pending : List Element) : String :=
  match pending with
  | [] => done
  | e :: rest => textFrom (done ++ e.text.getD "") (e.children ++ rest)
termination_by countAll pending
decreasing_by
  rw [countAll_append, countAll, count_eq]
  omega

/-- The text of an element and of all below it, in order. -/
def textContent (e : Element) : String := textFrom "" [e]

/-- An element comes first, then its children, then the rest. This is the walk
one step at a time; the list of pending elements takes the place of recursion. -/
theorem textFrom_cons (done : String) (e : Element) (rest : List Element) :
    textFrom done (e :: rest) = textFrom (done ++ e.text.getD "") (e.children ++ rest) := by
  rw [textFrom]

-- ================================================================== outline

/-- An element on one line, without its children; of bare text only the text
is shown. -/
def line (e : Element) : String :=
  if e.isText then quoted (e.text.getD "")
  else
    let attributes := e.attributes.map fun a => s!" {a.1}={quoted a.2}"
    let text := match e.text with
      | some t => " " ++ quoted t
      | none => ""
    e.tag ++ String.join attributes ++ text

/-- Elements with an indentation. -/
def indented (indent : Nat) (es : List Element) : List (Nat × Element) := es.map (indent, ·)

theorem map_snd_indented (indent : Nat) (es : List Element) :
    (indented indent es).map Prod.snd = es := by
  simp [indented, Function.comp_def]

/-- The lines of the elements `pending`, each with its indentation, behind
`done`. -/
def outlineFrom (done : String) (pending : List (Nat × Element)) : String :=
  match pending with
  | [] => done
  | (indent, e) :: rest =>
    outlineFrom (done ++ "".pushn ' ' indent ++ e.line ++ "\n")
      (indented (indent + 2) e.children ++ rest)
termination_by countAll (pending.map Prod.snd)
decreasing_by
  simp only [List.map_append, map_snd_indented, countAll_append, List.map_cons, countAll, count_eq]
  omega

/-- The outline of an element: a line for each element below it, two spaces
deeper than its parent. -/
def outline (e : Element) : String := outlineFrom "" [(0, e)]

/-- An element comes first, then its children, then the rest. -/
theorem outlineFrom_cons (done : String) (indent : Nat) (e : Element)
    (rest : List (Nat × Element)) :
    outlineFrom done ((indent, e) :: rest)
      = outlineFrom (done ++ "".pushn ' ' indent ++ e.line ++ "\n")
          (indented (indent + 2) e.children ++ rest) := by
  rw [outlineFrom]

-- ================================================================ debugging

/-- An attribute as debugging output shows it. -/
def attributeShape (a : String × String) : Shape := .apply "" [.string a.1, .string a.2]

mutual
/-- An element as debugging output shows it. -/
def shape : Element → Shape
  | ⟨tag, attributes, text, children⟩ =>
    .record "RenderNode" [
      ("tag", .string tag),
      ("attributes", .list (attributes.map attributeShape)),
      ("children", .list (shapes children)),
      ("text", .option (text.map Shape.string))]

/-- Elements as debugging output shows them. -/
def shapes : List Element → List Shape
  | [] => []
  | e :: es => e.shape :: shapes es
end

-- ===================================================================== JSON

mutual
/-- An element in JSON: its tag, and of the rest what is there. -/
def json : Element → Json
  | ⟨tag, attributes, text, children⟩ =>
    let attributePart := if attributes.isEmpty then [] else
      [("attributes", Json.object (attributes.map fun a => (a.1, .string a.2)))]
    let textPart := text.toList.map fun t => ("text", Json.string t)
    let childPart := if children.isEmpty then [] else [("children", Json.array (jsons children))]
    .object (("tag", .string tag) :: (attributePart ++ textPart ++ childPart))

/-- Elements in JSON. -/
def jsons : List Element → List Json
  | [] => []
  | e :: es => e.json :: jsons es
end

end UiScript.Element
