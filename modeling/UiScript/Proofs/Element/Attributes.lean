/-
Elements that are edited attribute by attribute: attributes are set, and
classes are added to one of them. Whatever is done in whatever order, the keys
stay distinct and keep the order in which they first came in, an attribute has
the value that was set last, and classes are added to the end of a list.

Only two things tell classes from other attributes. What is added is a text
that may hold several of them or none, and then it brings no key in; and their
attribute is the one whose value is not only set.

# Main statements

* `words_eq_parts`: the words of a text are what stands between its blanks.
* `keys_edit`, `attr?_edit`, `classes_edit`: what one edit does.
* `attributes_ordered`: what any number of them does.
-/
import Mathlib.Data.List.Induction
import UiScript.Proofs.Element.Classes

namespace UiScript

-- ====================================================================== parts

namespace Text

/-- What stands between the blanks of a text, and is something. -/
def parts (s : String) : List String :=
  ((s.toList.splitOnP isBlank).filter fun part => !part.isEmpty).map String.ofList

/-- A word that has not begun adds nothing to the first part. -/
theorem modifyHead_append_nil (pieces : List (List Char)) :
    pieces.modifyHead ([] ++ ·) = pieces := by
  cases pieces <;> rfl

/-- Words are what stands between blanks, the one that was begun first, and
what is empty is no word. -/
theorem wordsFrom_eq (word cs : List Char) :
    wordsFrom word cs
      = ((cs.splitOnP isBlank).modifyHead (word.reverse ++ ·)).filter fun part => !part.isEmpty := by
  induction cs generalizing word with
  | nil => cases word <;> simp [wordsFrom]
  | cons c cs ih =>
    rw [wordsFrom, List.splitOnP_cons_eq_if_modifyHead]
    split
    · -- the word ends here, and what comes behind the blank is read on its own
      have hrest := ih []
      rw [List.reverse_nil, modifyHead_append_nil] at hrest
      cases word <;> simp [hrest]
    · rw [ih, List.modifyHead_modifyHead]
      congr 2
      funext part
      simp

/-- The words of a text are what stands between its blanks. The right side
does not go through the text with a word in hand, so it can be taken as what
words are. -/
theorem words_eq_parts (s : String) : words s = parts s := by
  rw [words, wordsFrom_eq, List.reverse_nil, modifyHead_append_nil, parts]

end Text

namespace Element

open Text

-- ====================================================================== edits

/-- An edit of the attributes of an element. -/
inductive Edit where
  | set (key value : String)
  | addClass (added : String)

/-- The element with an edit made. -/
def edit (e : Element) : Edit → Element
  | .set key value => e.setAttr key value
  | .addClass added => e.addClass added

/-- An element of a tag with edits made, one after the other. -/
def edited (tag : String) (edits : List Edit) : Element := edits.foldl edit (ofTag tag)

/-- One more edit is made last. -/
theorem edited_concat (tag : String) (edits : List Edit) (last : Edit) :
    edited tag (edits ++ [last]) = (edited tag edits).edit last := by
  rw [edited, List.foldl_append, List.foldl_cons, List.foldl_nil, ← edited]

/-- The key that an edit brings in, unless it is there; adding nothing but
blanks brings in none. -/
def Edit.key? : Edit → Option String
  | .set key _ => some key
  | .addClass added => if trim added = "" then none else some classKey

/-- The value that an edit sets a key to. -/
def Edit.value? (key : String) : Edit → Option String
  | .set k value => if k = key then some value else none
  | .addClass _ => none

/-- The classes after an edit, if these are the ones before. -/
def Edit.classes (before : List String) : Edit → List String
  | .set key value => if key = classKey then parts value else before
  | .addClass added => before ++ parts added

/-- The keys of an element, in order. -/
def keys (e : Element) : List String := e.attributes.map Prod.fst

variable (e : Element) (last : Edit)

-- =================================================================== one edit

/-- A key is brought in unless it is there. -/
theorem removeAll_singleton (key : String) (keys : List String) :
    [key].removeAll keys = if key ∈ keys then [] else [key] := by
  by_cases h : key ∈ keys <;> simp [List.removeAll, h]

/-- The key that an edit brings in comes last, unless it is there. Nothing
ever takes a key away or moves it. -/
theorem keys_edit : (e.edit last).keys = e.keys ++ last.key?.toList.removeAll e.keys := by
  have hset : ∀ key value, (e.setAttr key value).keys = e.keys ++ [key].removeAll e.keys := by
    intro key value
    rw [keys, keys_setAttr, ← keys, removeAll_singleton]
    split
    · exact (List.append_nil _).symm
    · rfl
  cases last with
  | set key value => exact hset key value
  | addClass added =>
    rw [edit, Edit.key?]
    by_cases hblank : trim added = ""
    · rw [addClass, if_pos hblank, if_pos hblank]
      exact (List.append_nil _).symm
    · obtain ⟨value, hvalue⟩ := exists_addClass_eq_setAttr e hblank
      rw [hvalue, if_neg hblank, hset]
      rfl

/-- An edit sets one key at most, and that of the classes apart all keys but
this have the values that they had. -/
theorem attr?_edit {key : String} (hkey : key ≠ classKey) :
    (e.edit last).attr? key = (last.value? key).or (e.attr? key) := by
  cases last with
  | set k value =>
    rw [edit, Edit.value?]
    split
    · next hk => rw [← hk, attr?_setAttr_self, Option.some_or]
    · next hk => rw [attr?_setAttr_of_ne (Ne.symm hk), Option.none_or]
  | addClass added => exact (sameBut_addClass e added).attr?_eq hkey

/-- An edit changes the classes only if it is of their attribute. Setting the
attribute replaces them, adding puts words behind them. -/
theorem classes_edit : (e.edit last).classes = last.classes e.classes := by
  cases last with
  | set key value =>
    rw [edit, Edit.classes]
    split
    · next hkey => rw [hkey, classes_setAttr_classKey, words_eq_parts]
    · next hkey => exact (sameBut_setAttr e key value).classes_eq hkey
  | addClass added => rw [edit, classes_addClass, words_eq_parts, Edit.classes]

-- ================================================================== all edits

variable (tag : String) (edits : List Edit)

/-- Edits keep the keys distinct. -/
theorem nodup_keys_edited : (edited tag edits).keys.Nodup := by
  induction edits using List.reverseRecOn with
  | nil => exact List.nodup_nil
  | append_singleton edits last ih =>
    rw [edited_concat, keys_edit]
    cases last.key? with
    | none => simpa [List.removeAll] using ih
    | some key =>
      rw [Option.toList_some, removeAll_singleton]
      split
      · simpa using ih
      · next hnew =>
        refine List.nodup_append.2 ⟨ih, List.pairwise_singleton _ key, ?_⟩
        rintro known hknown _ hkey rfl
        exact hnew (List.mem_singleton.1 hkey ▸ hknown)

/-- A key stands where it first came in. -/
theorem keys_edited : (edited tag edits).keys = (edits.filterMap Edit.key?).eraseDups := by
  induction edits using List.reverseRecOn with
  | nil => rfl
  | append_singleton edits last ih =>
    have hlast : [last].filterMap Edit.key? = last.key?.toList := by
      cases h : last.key? <;> simp [h]
    rw [edited_concat, keys_edit, List.filterMap_append, List.eraseDups_append, ih, hlast]
    cases last.key? with
    | none => rfl
    | some key =>
      simp only [Option.toList_some, removeAll_singleton, List.mem_eraseDups]
      split <;> rfl

/-- The value of a key is the last one that it was set to. -/
theorem attr?_edited {key : String} (hkey : key ≠ classKey) :
    (edited tag edits).attr? key = (edits.filterMap (Edit.value? key)).getLast? := by
  induction edits using List.reverseRecOn with
  | nil => rfl
  | append_singleton edits last ih =>
    rw [edited_concat, attr?_edit _ _ hkey, List.filterMap_append, List.getLast?_append, ih]
    cases h : last.value? key <;> simp [h]

/-- The classes after all edits, edit by edit. -/
theorem classes_edited : (edited tag edits).classes = edits.foldl Edit.classes [] := by
  induction edits using List.reverseRecOn with
  | nil => rfl
  | append_singleton edits last ih =>
    rw [edited_concat, classes_edit, ih, List.foldl_append, List.foldl_cons, List.foldl_nil]

/-- Whatever edits are made, the keys are distinct and in the order in which
they first came in, all attributes but the classes have the value that was set
last, and whatever is added to the classes comes behind them, cut at its
blanks. -/
theorem attributes_ordered :
    (edited tag edits).keys.Nodup
      ∧ (edited tag edits).keys = (edits.filterMap Edit.key?).eraseDups
      ∧ (∀ key, key ≠ classKey →
        (edited tag edits).attr? key = (edits.filterMap (Edit.value? key)).getLast?)
      ∧ (∀ added, (edited tag (edits ++ [.addClass added])).classes
        = (edited tag edits).classes ++ parts added)
      ∧ (edited tag edits).classes = edits.foldl Edit.classes [] := by
  refine ⟨nodup_keys_edited tag edits, keys_edited tag edits, fun key => attr?_edited tag edits, ?_,
    classes_edited tag edits⟩
  intro added
  rw [edited_concat, classes_edit, Edit.classes]

/-- A link whose address is replaced, and whose classes are set with blanks
around them before two more are added. -/
def editsOfLink : List Edit :=
  [.set "href" "/home", .addClass " ", .set "id" "nav", .set "class" " wide  \tlow ",
    .set "href" "/start", .addClass "\u2003bold\u00a0red\n"]

/-- The address is the new one in the old place, blanks bring in nothing, and
there are four classes. -/
theorem attributes_ordered_link :
    "href" ≠ classKey ∧ (edited "a" editsOfLink).attr? "href" = some "/start"
      ∧ (edited "a" editsOfLink).keys = ["href", "id", "class"]
      ∧ (edited "a" editsOfLink).classes = ["wide", "low", "bold", "red"] := by
  obtain ⟨-, hkeys, hattr, -, hclasses⟩ := attributes_ordered "a" editsOfLink
  have hne : "href" ≠ classKey := by decide
  refine ⟨hne, ?_, ?_, ?_⟩
  · rw [hattr "href" hne]
    rfl
  · rw [hkeys]
    rfl
  · rw [hclasses]
    rfl

end Element

end UiScript
