/-
Text and outline by recursion over the tree, and how often a walk comes by an
element. An element is told from its equals by its place: the numbers of the
children on the way to it from the root. A walk visits each place once, and it
visits an element before those below it and these from left to right; so what
it reads off is what recursion gives.

# Main statements

* `outlineAt_eq`, `outlineFrom_eq`: outlines by recursion.
* `mem_places_iff`, `nodup_places`: the places of a tree.
* `walks_recursive`: text and outline, as walks and by recursion.
-/
import UiScript.Proofs.Element.Walks

namespace UiScript

namespace Element

-- ====================================================================== text

/-- The text of elements is the texts of their trees, one after the other. -/
theorem textOf_eq_join_textContent (es : List Element) :
    textOf es = String.join (es.map textContent) := by
  induction es with
  | nil => exact textOf_nil
  | cons e es ih =>
    rw [← List.singleton_append, textOf_append, textOf_singleton, ih, List.singleton_append,
      List.map_cons, String.join_cons]

-- =================================================================== outline

mutual
/-- The outline of an element with an indentation: its own line, and then its
children two spaces deeper. -/
def outlineAt (indent : Nat) : Element → String
  | ⟨tag, attributes, text, children⟩ =>
    "".pushn ' ' indent ++ line ⟨tag, attributes, text, children⟩ ++ "\n"
      ++ outlinesAt (indent + 2) children

/-- The outlines of elements with an indentation. -/
def outlinesAt (indent : Nat) : List Element → String
  | [] => ""
  | e :: es => outlineAt indent e ++ outlinesAt indent es
end

theorem outlinesAt_eq_join (indent : Nat) (es : List Element) :
    outlinesAt indent es = String.join (es.map (outlineAt indent)) := by
  induction es with
  | nil => rfl
  | cons e es ih => rw [outlinesAt, ih, List.map_cons, String.join_cons]

/-- The outline of an element is its line, and then those of its children two
spaces deeper. -/
theorem outlineAt_eq (indent : Nat) (e : Element) :
    e.outlineAt indent = "".pushn ' ' indent ++ e.line ++ "\n"
      ++ String.join (e.children.map (outlineAt (indent + 2))) := by
  obtain ⟨tag, attributes, text, children⟩ := e
  rw [outlineAt, outlinesAt_eq_join]

/-- The lines of elements that are pending are their outlines, one after the
other. The walk keeps an indentation with each pending element, which stands
for the depth of the recursion. -/
theorem outlineFrom_eq (done : String) (pending : List (Nat × Element)) :
    outlineFrom done pending = done ++ String.join (pending.map fun p => p.2.outlineAt p.1) := by
  fun_induction outlineFrom done pending with
  | case1 done => rw [List.map_nil, String.join_nil, String.append_empty]
  | case2 done indent e rest ih =>
    have hchildren : ((indented (indent + 2) e.children).map fun p => p.2.outlineAt p.1)
        = e.children.map (outlineAt (indent + 2)) := List.map_map
    rw [ih, List.map_append, hchildren, String.join_append, List.map_cons, String.join_cons,
      outlineAt_eq]
    simp only [String.append_assoc]

-- ==================================================================== places

/-- The place of the child with number `k` of an element at a place. -/
def placeBelow (place : List Nat) (k : Nat) : List Nat := place ++ [k]

/-- The element at a place of a tree. -/
def at? (e : Element) : List Nat → Option Element
  | [] => some e
  | k :: place => e.children[k]?.bind fun child => child.at? place

/-- The places of a tree with the elements there, from the top down. -/
def places (e : Element) : List (List Nat × Element) := descent placeBelow [] e

/-- The outline is a walk that puts down a line for each element, two spaces
to the right for each step on the way to it. -/
theorem outlineFrom_eq_walk (done : String) (pending : List (List Nat × Element)) :
    outlineFrom done (pending.map fun p => (2 * p.1.length, p.2))
      = walk (fun done place e => done ++ "".pushn ' ' (2 * place.length) ++ e.line ++ "\n")
          placeBelow done pending := by
  fun_induction walk (fun done place e => done ++ "".pushn ' ' (2 * place.length) ++ e.line ++ "\n")
    placeBelow done pending with
  | case1 done => rw [List.map_nil, outlineFrom]
  | case2 done place e rest ih =>
    have hchildren : ∀ k es, ((noted placeBelow place k es).map fun p => (2 * p.1.length, p.2))
        = indented (2 * place.length + 2) es := by
      intro k es
      induction es generalizing k with
      | nil => rfl
      | cons f es ih =>
        rw [noted, List.map_cons, ih, placeBelow, List.length_append]
        rfl
    rw [List.map_cons, outlineFrom_cons, ← ih, List.map_append, hchildren]

mutual
/-- What is found on the way down is what stands at a place of the tree, told
from above it. -/
theorem mem_descent_iff (above place : List Nat) (f : Element) : ∀ e : Element,
    (place, f) ∈ descent placeBelow above e ↔ ∃ rest, place = above ++ rest ∧ e.at? rest = some f
  | ⟨tag, attributes, text, children⟩ => by
    rw [descent, List.mem_cons, mem_descents_iff above place f 0 children]
    constructor
    · rintro (h | ⟨k, rest, hplace, hf⟩)
      · cases h
        exact ⟨[], (List.append_nil _).symm, rfl⟩
      · exact ⟨k :: rest, by rw [hplace, Nat.zero_add], hf⟩
    · rintro ⟨rest, rfl, hf⟩
      cases rest with
      | nil =>
        obtain rfl := Option.some.inj hf
        exact .inl (by rw [List.append_nil])
      | cons k rest => exact .inr ⟨k, rest, by rw [Nat.zero_add], hf⟩

/-- The same of children from the one with number `k` on: the place starts
with the number of the child that it is below. -/
theorem mem_descents_iff (above place : List Nat) (f : Element) : ∀ (k : Nat) (es : List Element),
    (place, f) ∈ descents placeBelow above k es ↔
      ∃ j rest, place = above ++ (k + j) :: rest ∧ (es[j]?.bind fun e => e.at? rest) = some f
  | _, [] => by simp [descents]
  | k, e :: es => by
    rw [descents, List.mem_append, mem_descent_iff (placeBelow above k) place f e,
      mem_descents_iff above place f (k + 1) es]
    constructor
    · rintro (⟨rest, hplace, hf⟩ | ⟨j, rest, hplace, hf⟩)
      · exact ⟨0, rest, by rw [hplace, placeBelow, List.append_assoc]; rfl, hf⟩
      · exact ⟨j + 1, rest, by rw [hplace, Nat.add_right_comm, Nat.add_assoc], hf⟩
    · rintro ⟨j, rest, hplace, hf⟩
      cases j with
      | zero => exact .inl ⟨rest, by rw [hplace, placeBelow, List.append_assoc]; rfl, hf⟩
      | succ j => exact .inr ⟨j, rest, by rw [hplace, Nat.add_right_comm, Nat.add_assoc], hf⟩
end

/-- The places of a tree are those at which there is an element. Looking up a
place and coming by it on the way down are the same. -/
theorem mem_places_iff {e f : Element} {place : List Nat} :
    (place, f) ∈ e.places ↔ e.at? place = some f := by
  rw [places, mem_descent_iff]
  simp

mutual
/-- No place comes twice on the way down: that of the root is shorter than all
below it. -/
theorem nodup_descent (above : List Nat) : ∀ e : Element,
    ((descent placeBelow above e).map Prod.fst).Nodup
  | ⟨tag, attributes, text, children⟩ => by
    rw [descent, List.map_cons, List.nodup_cons]
    refine ⟨?_, nodup_descents above 0 children⟩
    rintro h
    obtain ⟨⟨place, f⟩, hmem, rfl⟩ := List.mem_map.1 h
    obtain ⟨k, rest, hbelow, -⟩ := (mem_descents_iff place place f 0 children).1 hmem
    exact List.cons_ne_nil _ _ (List.self_eq_append_right.1 hbelow)

/-- Children have different numbers, so what is below one is not below
another. -/
theorem nodup_descents (above : List Nat) : ∀ (k : Nat) (es : List Element),
    ((descents placeBelow above k es).map Prod.fst).Nodup
  | _, [] => List.nodup_nil
  | k, e :: es => by
    rw [descents, List.map_append, List.nodup_append]
    refine ⟨nodup_descent (placeBelow above k) e, nodup_descents above (k + 1) es, ?_⟩
    rintro _ hfirst _ hlater rfl
    -- the one place goes on with the number `k`, and the other one with a greater number
    obtain ⟨⟨first, f⟩, hf, rfl⟩ := List.mem_map.1 hfirst
    obtain ⟨⟨later, g⟩, hg, heq⟩ := List.mem_map.1 hlater
    obtain ⟨rest, hin, -⟩ := (mem_descent_iff (placeBelow above k) first f e).1 hf
    obtain ⟨j, rest', hout, -⟩ := (mem_descents_iff above later g (k + 1) es).1 hg
    rw [placeBelow, List.append_assoc] at hin
    have htail := List.append_cancel_left (hin.symm.trans (heq.symm.trans hout))
    have hnumber : k = k + 1 + j := (List.cons.inj htail).1
    omega
end

/-- No place of a tree comes up twice. The elements may well be equal; their
places are not. -/
theorem nodup_places (e : Element) : (e.places.map Prod.fst).Nodup := nodup_descent [] e

mutual
/-- There are as many places as elements. -/
theorem length_descent {α : Type} (note : α → Nat → α) : ∀ (a : α) (e : Element),
    (descent note a e).length = e.count
  | a, ⟨tag, attributes, text, children⟩ => by
    rw [descent, List.length_cons, length_descents note a 0 children, count, Nat.add_comm]

theorem length_descents {α : Type} (note : α → Nat → α) : ∀ (a : α) (k : Nat) (es : List Element),
    (descents note a k es).length = countAll es
  | _, _, [] => rfl
  | a, k, e :: es => by
    rw [descents, List.length_append, length_descent note (note a k) e,
      length_descents note a (k + 1) es, countAll]
end

/-- Text and outline of a tree are those of its root and then those of its
children, in order and for the outline two spaces deeper. Both are walks; and
a walk comes to its end after one visit to each place of the tree, whatever is
done there. -/
theorem walks_recursive (e : Element) :
    e.textContent = e.text.getD "" ++ String.join (e.children.map textContent)
      ∧ e.outline = e.outlineAt 0
      ∧ (∀ indent, e.outlineAt indent = "".pushn ' ' indent ++ e.line ++ "\n"
        ++ String.join (e.children.map (outlineAt (indent + 2))))
      ∧ e.textContent = walk (fun done _ f => done ++ f.text.getD "") placeBelow "" [([], e)]
      ∧ e.outline = walk (fun done place f =>
          done ++ "".pushn ' ' (2 * place.length) ++ f.line ++ "\n") placeBelow "" [([], e)]
      ∧ (∀ {σ : Type} (visit : σ → List Nat → Element → σ) (s : σ),
        walk visit placeBelow s [([], e)] = e.places.foldl (fun s p => visit s p.1 p.2) s)
      ∧ e.places.length = e.count ∧ (e.places.map Prod.fst).Nodup
      ∧ ∀ place f, (place, f) ∈ e.places ↔ e.at? place = some f := by
  refine ⟨?_, ?_, fun indent => outlineAt_eq indent e, textFrom_eq_walk placeBelow "" [([], e)],
    outlineFrom_eq_walk "" [([], e)], fun visit s => ?_, length_descent placeBelow [] e,
    nodup_places e, fun place f => mem_places_iff⟩
  · rw [textContent_eq, textOf_eq_join_textContent]
  · rw [outline, outlineFrom_eq, List.map_singleton, String.join_cons, String.join_nil,
      String.append_empty, String.empty_append]
  · rw [walk_eq_foldl, List.flatMap_singleton, places]

end Element

end UiScript
