/-
Walks over elements. A walk goes through a list of elements still to come: it
visits the first one and puts its children in front of the others. Whatever is
done at a visit, it is done at the elements of the trees from the top down,
one tree after the other. So the text that is read off in this way is the text
of the one and then the text of the other, wherever the list is cut, which
makes it the text of a tree.

# Main statements

* `walk_eq_foldl`: a walk visits trees in a row one after the other, each from
  the top down.
* `textOf_append`, `textContent_eq`: the text of elements in a row, and of an
  element by its parts.
* `nodes_eq`, `nodesOf_append`: the elements of a tree are its root and those
  below it, and those of trees in a row are those of each.
* `textContent_renderElement`: collapsing a value keeps its text.
-/
import UiScript.Value

namespace UiScript

namespace Element

-- ===================================================================== walks

section
variable {σ α : Type} (visit : σ → α → Element → σ) (note : α → Nat → α)

/-- Children from the one with number `k` on, each with a note that is made
from their parent's. -/
def noted (a : α) (k : Nat) : List Element → List (α × Element)
  | [] => []
  | e :: es => (note a k, e) :: noted a (k + 1) es

theorem map_snd_noted (a : α) (k : Nat) (es : List Element) :
    (noted note a k es).map Prod.snd = es := by
  induction es generalizing k with
  | nil => rfl
  | cons e es ih => rw [noted, List.map_cons, ih]

/-- The first element still to come is visited, and its children come before
the others. -/
def walk (s : σ) (pending : List (α × Element)) : σ :=
  match pending with
  | [] => s
  | (a, e) :: rest => walk (visit s a e) (noted note a 0 e.children ++ rest)
termination_by countAll (pending.map Prod.snd)
decreasing_by
  simp only [List.map_append, map_snd_noted, countAll_append, List.map_cons, countAll, count_eq]
  omega

mutual
/-- An element with its note and all below it with theirs, from the top down. -/
def descent (a : α) : Element → List (α × Element)
  | ⟨tag, attributes, text, children⟩ =>
    (a, ⟨tag, attributes, text, children⟩) :: descents a 0 children

/-- The same of children from the one with number `k` on. -/
def descents (a : α) (k : Nat) : List Element → List (α × Element)
  | [] => []
  | e :: es => descent (note a k) e ++ descents a (k + 1) es
end

/-- A tree from the top down is its root and then the trees of the children,
with notes made from that of the root. -/
theorem descent_eq (a : α) (e : Element) :
    descent note a e = (a, e) :: descents note a 0 e.children := by
  obtain ⟨tag, attributes, text, children⟩ := e
  rw [descent]

/-- The trees of children, each with the note that it is given beside its
siblings. -/
theorem flatMap_noted (a : α) (k : Nat) (es : List Element) :
    ((noted note a k es).flatMap fun p => descent note p.1 p.2) = descents note a k es := by
  induction es generalizing k with
  | nil => rfl
  | cons e es ih => rw [noted, List.flatMap_cons, ih, descents]

/-- What a walk still has to visit are the trees that are pending, one after
the other. So whatever a walk computes is a fold over the trees, and does not
depend on how the list of pending elements came about. -/
theorem walk_eq_foldl (s : σ) (pending : List (α × Element)) :
    walk visit note s pending
      = (pending.flatMap fun p => descent note p.1 p.2).foldl (fun s p => visit s p.1 p.2) s := by
  fun_induction walk visit note s pending with
  | case1 s => rfl
  | case2 s a e rest ih =>
    rw [ih, List.flatMap_append, flatMap_noted, List.flatMap_cons, descent_eq, List.cons_append,
      List.foldl_cons]

end

/-- What is put down one thing after the other is put together in the end. -/
theorem foldl_put {β : Type} (f : β → String) (done : String) (l : List β) :
    l.foldl (fun done b => done ++ f b) done = done ++ String.join (l.map f) := by
  induction l generalizing done with
  | nil => rw [List.foldl_nil, List.map_nil, String.join_nil, String.append_empty]
  | cons b l ih => rw [List.foldl_cons, ih, List.map_cons, String.join_cons, String.append_assoc]

-- ====================================================================== text

/-- The text of elements and of all below them, in order. -/
def textOf (es : List Element) : String := textFrom "" es

/-- Reading off the text is a walk that puts down the text of each element,
whatever the notes. -/
theorem textFrom_eq_walk {α : Type} (note : α → Nat → α) (done : String)
    (pending : List (α × Element)) :
    textFrom done (pending.map Prod.snd)
      = walk (fun done _ e => done ++ e.text.getD "") note done pending := by
  fun_induction walk (fun done _ e => done ++ e.text.getD "") note done pending with
  | case1 done => rw [List.map_nil, textFrom]
  | case2 done a e rest ih =>
    rw [List.map_cons, textFrom_cons, ← ih, List.map_append, map_snd_noted]

/-- The texts of elements and of all below them, one by one. -/
def texts (es : List Element) : List String :=
  (es.flatMap fun e => descent (fun _ _ => ()) () e).map fun p => p.2.text.getD ""

/-- The text that is read off in a walk is what was there before, and then the
texts of the elements one by one. -/
theorem textFrom_eq_join (done : String) (es : List Element) :
    textFrom done es = done ++ String.join (texts es) := by
  have hwalk := textFrom_eq_walk (fun _ _ => ()) done (es.map fun e => ((), e))
  rw [walk_eq_foldl, foldl_put, List.flatMap_map, List.map_map] at hwalk
  rw [texts, ← hwalk]
  exact congrArg (textFrom done) (List.map_id es).symm

/-- The text of elements is their texts one by one. -/
theorem textOf_eq_join (es : List Element) : textOf es = String.join (texts es) := by
  rw [textOf, textFrom_eq_join, String.empty_append]

/-- What has been read of the text does not matter to what is still to come. -/
theorem textFrom_eq (done : String) (pending : List Element) :
    textFrom done pending = done ++ textOf pending := by
  rw [textFrom_eq_join, textOf_eq_join]

theorem textOf_nil : textOf [] = "" := textOf_eq_join []

/-- The text of the first element, then what is below it, then the rest: one
step of the walk. -/
theorem textOf_cons (e : Element) (rest : List Element) :
    textOf (e :: rest) = e.text.getD "" ++ textOf (e.children ++ rest) := by
  rw [textOf, textFrom_cons, textFrom_eq, String.empty_append]

/-- The text of elements in a row is the text of the first ones, and then that
of the others. The list may be cut anywhere, also between a parent's children. -/
theorem textOf_append (es fs : List Element) : textOf (es ++ fs) = textOf es ++ textOf fs := by
  rw [textOf_eq_join, texts, List.flatMap_append, List.map_append, String.join_append,
    ← texts, ← texts, ← textOf_eq_join, ← textOf_eq_join]

/-- The text of an element is its own, and then that of its children. Read as
an equation for the recursion, it says what the walk computes. -/
theorem textContent_eq (e : Element) : e.textContent = e.text.getD "" ++ textOf e.children := by
  show textOf [e] = _
  rw [textOf_cons, List.append_nil]

theorem textOf_singleton (e : Element) : textOf [e] = e.textContent := rfl

-- ===================================================================== nodes

mutual
/-- An element and all below it, in the order of an outline. -/
def nodes : Element → List Element
  | ⟨tag, attributes, text, children⟩ => ⟨tag, attributes, text, children⟩ :: nodesOf children

/-- Elements and all below them. -/
def nodesOf : List Element → List Element
  | [] => []
  | e :: es => e.nodes ++ nodesOf es
end

/-- The elements of a tree are its root and those of the trees below it. -/
theorem nodes_eq (e : Element) : e.nodes = e :: nodesOf e.children := by
  obtain ⟨tag, attributes, text, children⟩ := e
  rw [nodes]

/-- The elements of trees in a row are those of the ones and then those of the
others. Blocks contribute their elements in rows, so soundness is carried
along such rows. -/
theorem nodesOf_append (es fs : List Element) : nodesOf (es ++ fs) = nodesOf es ++ nodesOf fs := by
  induction es with
  | nil => rfl
  | cons e es ih => rw [List.cons_append, nodesOf, nodesOf, ih, List.append_assoc]

end Element

-- ==================================================================== values

namespace Value

/-- The text of a value is that of its elements, collapsed or not. A fragment
that is made around several elements has no text of its own. -/
theorem textContent_renderElement (v : Value) :
    v.renderElement.textContent = Element.textOf v.elements := by
  rcases v.renderElement_eq with h | h
  · rw [h, Element.textOf_singleton]
  · rw [h, Element.textContent_eq]
    exact String.empty_append

end Value

end UiScript
