/-
Classes and the other attributes of an element. The classes are the words of
one attribute's value, which is edited as text: what is added is trimmed and
put behind a blank. The words of the whole are the words of the parts, so
classes are added to the end of a list after all, whatever the value was
before. All else about the element stays (`SameBut`).

# Main statements

* `words_append_blank`, `words_trim`: the words of what is put together and
  trimmed.
* `classes_addClasses`: classes are added at the end.
* `sameBut_setAttr`, `sameBut_addClasses`: nothing else is touched.
-/
import UiScript.Element.Basic
import UiScript.Proofs.Text.Trimming

namespace UiScript

-- ====================================================================== words

namespace Text

section
variable {word cs ds : List Char}

/-- Blanks at the beginning make no words. -/
theorem wordsFrom_blanks_append (hds : ∀ d ∈ ds, isBlank d = true) :
    wordsFrom [] (ds ++ cs) = wordsFrom [] cs := by
  induction ds with
  | nil => rfl
  | cons d ds ih =>
    obtain ⟨hd, hds⟩ := List.forall_mem_cons.1 hds
    rw [List.cons_append, wordsFrom, if_pos hd]
    exact ih hds

/-- A blank ends a word, and what comes after it is read on its own. -/
theorem wordsFrom_append_blank {c : Char} (hc : isBlank c = true) :
    wordsFrom word (cs ++ c :: ds) = wordsFrom word cs ++ wordsFrom [] ds := by
  induction cs generalizing word with
  | nil =>
    rw [List.nil_append, wordsFrom, wordsFrom, if_pos hc]
    split <;> rfl
  | cons d cs ih =>
    rw [List.cons_append, wordsFrom, wordsFrom, ih, ih]
    split
    · split <;> rfl
    · rfl

/-- Blanks at the end make no words. -/
theorem wordsFrom_append_blanks (hds : ∀ d ∈ ds, isBlank d = true) :
    wordsFrom word (cs ++ ds) = wordsFrom word cs := by
  induction ds generalizing word cs with
  | nil => rw [List.append_nil]
  | cons d ds ih =>
    obtain ⟨hd, hds⟩ := List.forall_mem_cons.1 hds
    have hrest := @ih [] [] hds
    rw [List.nil_append] at hrest
    rw [wordsFrom_append_blank hd, hrest]
    exact List.append_nil _

end

/-- A trimmed text has the words that it had. Trimming takes blanks away from
the ends, and no word has any. -/
theorem words_trim (s : String) : words (trim s) = words s := by
  unfold words trim
  rw [String.toList_ofList]
  obtain ⟨before, after, hwhole, hbefore, hafter⟩ := exists_trimChars s.toList
  -- both ends of the text go, and the words stay
  have hwords : wordsFrom [] s.toList = wordsFrom [] (trimChars s.toList) := by
    rw [congrArg (wordsFrom []) hwhole, wordsFrom_append_blanks hafter,
      wordsFrom_blanks_append hbefore]
  rw [hwords]

theorem words_empty : words "" = [] := rfl

/-- The words of two texts with a blank between them. The blank keeps the last
word of the one and the first word of the other apart. -/
theorem words_append_blank (s t : String) : words (s ++ " " ++ t) = words s ++ words t := by
  have htoList : (s ++ " " ++ t).toList = s.toList ++ ' ' :: t.toList := by
    simp [String.toList_append]
  unfold words
  rw [htoList, wordsFrom_append_blank rfl, List.map_append]

end Text

namespace Element

-- =================================================================== attributes

/-- Setting an attribute leaves the others as they are, in their order. -/
theorem filter_insert (key value : String) (attributes : List (String × String)) :
    (insert key value attributes).filter (·.1 ≠ key) = attributes.filter (·.1 ≠ key) := by
  induction attributes with
  | nil => simp [insert]
  | cons a rest ih =>
    rw [insert]
    split
    · next ha => simp [ha]
    · rw [List.filter_cons, List.filter_cons, ih]

/-- The two elements differ in one attribute at most. -/
structure SameBut (key : String) (e e' : Element) : Prop where
  tag : e'.tag = e.tag
  text : e'.text = e.text
  children : e'.children = e.children
  /-- The other attributes have the same values and stand in the same order. -/
  attributes : e'.attributes.filter (·.1 ≠ key) = e.attributes.filter (·.1 ≠ key)

variable {key : String} {e e' e'' : Element}

theorem SameBut.refl (key : String) (e : Element) : SameBut key e e := ⟨rfl, rfl, rfl, rfl⟩

/-- Two changes of one attribute change no other. -/
theorem SameBut.trans (h : SameBut key e e') (h' : SameBut key e' e'') : SameBut key e e'' :=
  ⟨h'.tag.trans h.tag, h'.text.trans h.text, h'.children.trans h.children,
    h'.attributes.trans h.attributes⟩

/-- An attribute is found without another one as it is found with it. -/
theorem lookup_filter {k : String} (hk : k ≠ key) (attributes : List (String × String)) :
    lookup k (attributes.filter (·.1 ≠ key)) = lookup k attributes := by
  unfold lookup
  rw [List.find?_filter]
  congr 2
  funext a
  by_cases ha : a.1 = k
  · simp [ha, hk]
  · simp [ha]

/-- The other attributes have the values that they had. -/
theorem SameBut.attr?_eq (h : SameBut key e e') {k : String} (hk : k ≠ key) :
    e'.attr? k = e.attr? k := by
  unfold attr?
  rw [← lookup_filter hk, h.attributes, lookup_filter hk]

/-- Setting an attribute touches nothing else. -/
theorem sameBut_setAttr (e : Element) (key value : String) : SameBut key e (e.setAttr key value) :=
  ⟨rfl, rfl, rfl, filter_insert key value e.attributes⟩

-- ====================================================================== classes

/-- The element with classes added one after the other. -/
def addClasses (e : Element) (added : List String) : Element := added.foldl addClass e

theorem addClasses_singleton (e : Element) (c : String) : e.addClasses [c] = e.addClass c := by
  rw [addClasses, List.foldl_cons, List.foldl_nil]

/-- Classes are added in two batches as in one. -/
theorem addClasses_append (e : Element) (added more : List String) :
    e.addClasses (added ++ more) = (e.addClasses added).addClasses more := List.foldl_append

/-- Adding classes that are not just blanks is setting an attribute. -/
theorem exists_addClass_eq_setAttr (e : Element) {added : String} (h : Text.trim added ≠ "") :
    ∃ value, e.addClass added = e.setAttr classKey value := by
  unfold addClass
  dsimp only
  rw [if_neg h]
  split <;> exact ⟨_, rfl⟩

/-- Adding a class does nothing if the class is blank, and else sets one
attribute. -/
theorem addClass_eq (e : Element) (c : String) :
    e.addClass c = e ∨ ∃ value, e.addClass c = e.setAttr classKey value := by
  by_cases h : Text.trim c = ""
  · exact .inl (if_pos h)
  · exact .inr (exists_addClass_eq_setAttr e h)

/-- Adding a class touches nothing but the class attribute. -/
theorem sameBut_addClass (e : Element) (c : String) : SameBut classKey e (e.addClass c) := by
  obtain h | ⟨value, h⟩ := addClass_eq e c
  · rw [h]
    exact .refl classKey e
  · rw [h]
    exact sameBut_setAttr e classKey value

/-- However many classes are added, nothing else is touched. -/
theorem sameBut_addClasses (e : Element) (added : List String) :
    SameBut classKey e (e.addClasses added) := by
  induction added generalizing e with
  | nil => exact .refl classKey e
  | cons c added ih => exact (sameBut_addClass e c).trans (ih (e.addClass c))

/-- The classes are the words of the class attribute. -/
theorem classes_of_attr? {value : String} (h : e.attr? classKey = some value) :
    e.classes = Text.words value := by
  unfold classes
  rw [h]

/-- A class attribute that is set as a whole tells all of the classes. -/
theorem classes_setAttr_classKey (e : Element) (value : String) :
    (e.setAttr classKey value).classes = Text.words value :=
  classes_of_attr? (attr?_setAttr_self e classKey value)

/-- Other attributes do not make classes. -/
theorem SameBut.classes_eq (h : SameBut key e e') (hkey : key ≠ classKey) :
    e'.classes = e.classes := by
  unfold classes
  rw [h.attr?_eq hkey.symm]

/-- The words of what is added come last, whatever the classes were before. -/
theorem classes_addClass (e : Element) (c : String) :
    (e.addClass c).classes = e.classes ++ Text.words c := by
  rw [← Text.words_trim c]
  unfold addClass
  dsimp only
  split
  · next hblank => rw [hblank, Text.words_empty, List.append_nil]
  split
  · next hnone =>
    rw [classes_setAttr_classKey, classes, hnone]
    exact (List.nil_append _).symm
  · next hempty =>
    rw [classes_setAttr_classKey, classes_of_attr? hempty, Text.words_empty, List.nil_append]
  · next existing _ hexisting =>
    rw [classes_setAttr_classKey, classes_of_attr? hexisting, Text.words_append_blank]

/-- Classes are added at the end, in their order. An added text may hold
several, or none. The induction is on the list of what is added. -/
theorem classes_addClasses (e : Element) (added : List String) :
    (e.addClasses added).classes = e.classes ++ added.flatMap Text.words := by
  induction added generalizing e with
  | nil => exact (List.append_nil _).symm
  | cons c added ih =>
    show ((e.addClass c).addClasses added).classes = _
    rw [ih, classes_addClass, List.append_assoc, List.flatMap_cons]

end Element

end UiScript
