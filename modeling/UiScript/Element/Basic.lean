/-
Elements: the output tree. An element has a tag, attributes, text of its
own and children; what becomes of it is the host's business. Attributes
keep the order in which their keys were first set, and a key is never set
twice: setting it again replaces the value in its place.

# Main statements

* `attr?_setAttr_self`, `attr?_setAttr_of_ne` — setting a key changes the
  value under that key and under no other.
* `keys_setAttr` — a new key comes last, a known one stays in its place.
-/
import UiScript.Text.Blank

namespace UiScript

open Text

/-- An element of the output tree. -/
structure Element where
  tag : String
  attributes : List (String × String)
  text : Option String
  children : List Element
deriving Inhabited

namespace Element

-- ================================================================== equality

mutual
/-- Elements can be told apart. -/
def decideEq : (a b : Element) → Decidable (a = b)
  | ⟨tag, attributes, text, children⟩, ⟨tag', attributes', text', children'⟩ =>
    if h : tag = tag' ∧ attributes = attributes' ∧ text = text' then
      match decideListEq children children' with
      | isTrue hc => isTrue (by rw [h.1, h.2.1, h.2.2, hc])
      | isFalse hc => isFalse (by rintro ⟨⟩; exact hc rfl)
    else isFalse (by rintro ⟨⟩; exact h ⟨rfl, rfl, rfl⟩)

/-- Lists of elements can be told apart. -/
def decideListEq : (as bs : List Element) → Decidable (as = bs)
  | [], [] => isTrue rfl
  | [], _ :: _ => isFalse (by rintro ⟨⟩)
  | _ :: _, [] => isFalse (by rintro ⟨⟩)
  | a :: as, b :: bs =>
    match decideEq a b, decideListEq as bs with
    | isTrue h, isTrue hs => isTrue (by rw [h, hs])
    | isFalse h, _ => isFalse (by rintro ⟨⟩; exact h rfl)
    | _, isFalse hs => isFalse (by rintro ⟨⟩; exact hs rfl)
end

instance : DecidableEq Element := decideEq

-- =========================================================== making elements

/-- The tag of bare text. -/
def textTag : String := "#text"

/-- The tag of several elements that stand for one. -/
def fragmentTag : String := "#fragment"

/-- An element with nothing but a tag. -/
def ofTag (tag : String) : Element := ⟨tag, [], none, []⟩

/-- Bare text. -/
def ofText (text : String) : Element := ⟨textTag, [], some text, []⟩

/-- Several elements as one. -/
def fragment (children : List Element) : Element := ⟨fragmentTag, [], none, children⟩

/-- Whether the element is bare text. -/
def isText (e : Element) : Bool := e.tag == textTag

/-- The element with this text of its own. -/
def withText (e : Element) (text : String) : Element := { e with text := some text }

/-- The element with more children after those it has. -/
def withChildren (e : Element) (children : List Element) : Element :=
  { e with children := e.children ++ children }

-- ================================================================ attributes

/-- The value that a list of attributes has under a key. -/
def lookup (key : String) (attributes : List (String × String)) : Option String :=
  (attributes.find? fun a => a.1 == key).map Prod.snd

/-- The list of attributes with a key set: in its place if it is known, at the
end if not. -/
def insert (key value : String) : List (String × String) → List (String × String)
  | [] => [(key, value)]
  | a :: rest => if a.1 = key then (key, value) :: rest else a :: insert key value rest

/-- The value of an attribute. -/
def attr? (e : Element) (key : String) : Option String := lookup key e.attributes

/-- The element with an attribute set. -/
def setAttr (e : Element) (key value : String) : Element :=
  { e with attributes := insert key value e.attributes }

theorem lookup_insert_self (key value : String) (attributes : List (String × String)) :
    lookup key (insert key value attributes) = some value := by
  induction attributes with
  | nil => simp [lookup, insert]
  | cons a rest ih =>
    simp only [insert]
    split
    · simp [lookup]
    · next h => simpa [lookup, h] using ih

theorem lookup_insert_of_ne {key k : String} (h : k ≠ key) (value : String)
    (attributes : List (String × String)) :
    lookup k (insert key value attributes) = lookup k attributes := by
  induction attributes with
  | nil => simp [lookup, insert, Ne.symm h]
  | cons a rest ih =>
    simp only [insert]
    split
    · next ha => simp [lookup, ha, Ne.symm h]
    · by_cases hk : a.1 = k
      · simp [lookup, hk]
      · simpa [lookup, hk] using ih

/-- An attribute that was set has its new value. Together with the next one it
says all that setting does to a look-up. -/
theorem attr?_setAttr_self (e : Element) (key value : String) :
    (e.setAttr key value).attr? key = some value :=
  lookup_insert_self ..

/-- Setting an attribute leaves the others alone. -/
theorem attr?_setAttr_of_ne {key k : String} (h : k ≠ key) (e : Element) (value : String) :
    (e.setAttr key value).attr? k = e.attr? k :=
  lookup_insert_of_ne h ..

/-- A new key comes last, a known one stays in its place. So keys come in the
order in which they were first set, and none comes twice. -/
theorem keys_setAttr (e : Element) (key value : String) :
    (e.setAttr key value).attributes.map Prod.fst
      = if key ∈ e.attributes.map Prod.fst then e.attributes.map Prod.fst
        else e.attributes.map Prod.fst ++ [key] := by
  obtain ⟨tag, attributes, text, children⟩ := e
  simp only [setAttr]
  induction attributes with
  | nil => simp [insert]
  | cons a rest ih =>
    simp only [insert]
    by_cases ha : a.1 = key
    · simp [ha]
    · rw [if_neg ha, List.map_cons, ih]
      by_cases hr : key ∈ rest.map Prod.fst
      · rw [if_pos hr, if_pos (by simp [hr])]
        rfl
      · rw [if_neg hr, if_neg (by simpa [Ne.symm ha] using hr)]
        rfl

-- =================================================================== classes

/-- The attribute that holds the classes. -/
def classKey : String := "class"

/-- The element with more classes after those it has; blank text adds none. -/
def addClass (e : Element) (classes : String) : Element :=
  let added := trim classes
  if added = "" then e
  else match e.attr? classKey with
    | none => e.setAttr classKey added
    | some "" => e.setAttr classKey added
    | some existing => e.setAttr classKey (existing ++ " " ++ added)

/-- The classes of an element, in order. -/
def classes (e : Element) : List String :=
  match e.attr? classKey with
  | some value => words value
  | none => []

/-- Whether the element has a class. -/
def hasClass (e : Element) (c : String) : Bool := e.classes.contains c

-- ===================================================================== size

mutual
/-- How many elements a tree has. -/
def count : Element → Nat
  | ⟨_, _, _, children⟩ => 1 + countAll children

/-- How many elements the trees have. -/
def countAll : List Element → Nat
  | [] => 0
  | e :: es => e.count + countAll es
end

theorem count_eq (e : Element) : e.count = 1 + countAll e.children := by
  obtain ⟨tag, attributes, text, children⟩ := e
  rw [count]

@[simp] theorem countAll_append (as bs : List Element) :
    countAll (as ++ bs) = countAll as + countAll bs := by
  induction as with
  | nil => simp [countAll]
  | cons a as ih =>
    rw [List.cons_append, countAll, countAll, ih]
    omega

end Element

end UiScript
