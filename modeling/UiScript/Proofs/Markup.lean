/-
No program gets markup into the output. Whatever an expression holds, every
element of what it comes to has a tag and attributes that the standard
operations know, and no value of an attribute can close the attribute or open
a tag; classes, identities, URLs and descriptions hold what they may hold.

Soundness is what carries this through an execution: literals are bare text,
operations make sound elements around those of their blocks, and modifiers
keep them sound.

# Main statements

* `Element.Sound.harmless`: sound elements are harmless.
* `Execution.execute_harmless`: every element of every result is.
-/
import UiScript.Proofs.Standard.Contributions
import UiScript.Proofs.Text.Characters

namespace UiScript

open Standard

-- =========================================================== harmless elements

namespace Element

/-- Control codes, and the characters that close an attribute or open a tag. -/
def IsDangerous (c : Char) : Prop :=
  c.toNat ≤ 0x1F ∨ 0x7F ≤ c.toNat ∧ c.toNat ≤ 0x9F ∨ c ∈ ['<', '>', '\x22', '\x27', '\x60']

/-- The characters of classes: small letters, digits, and five marks. -/
def IsClassChar (c : Char) : Prop :=
  'a' ≤ c ∧ c ≤ 'z' ∨ '0' ≤ c ∧ c ≤ '9' ∨ c ∈ ['-', '_', ':', '/', '.']

/-- The check for markup is made for the dangerous characters, and for no
other ones. -/
theorem isMarkup_iff {c : Char} : isMarkup c = true ↔ IsDangerous c := by
  simp only [isMarkup, Text.isControl, IsDangerous, Bool.or_eq_true, Bool.and_eq_true,
    decide_eq_true_eq, beq_iff_eq, List.mem_cons, List.not_mem_nil, or_false, or_assoc]

/-- The check for style characters lets through those of classes, and no other
ones. -/
theorem isStyleChar_iff {c : Char} : isStyleChar c = true ↔ IsClassChar c := by
  simp only [isStyleChar, IsClassChar, Text.isLower_iff, Text.isDigit_iff, Bool.or_eq_true,
    beq_iff_eq, List.mem_cons, List.not_mem_nil, or_false, or_assoc]

/-- An element whose attributes are known, hold no markup, and hold what their
keys stand for. -/
structure Harmless (n : Element) : Prop where
  tag : n.tag ∈ textTag :: fragmentTag :: elementTags
  distinct : (n.attributes.map Prod.fst).Nodup
  known : ∀ a ∈ n.attributes, a.1 ∈ attributeKeys
  markup : ∀ a ∈ n.attributes, ∀ c ∈ a.2.toList, ¬ IsDangerous c
  classes : ∀ c ∈ n.classes, c ≠ "" ∧ ∀ d ∈ c.toList, IsClassChar d
  identity : ∀ value, n.attr? "id" = some value → isStyleToken value = true
  url : ∀ key ∈ ["href", "src"], ∀ value, n.attr? key = some value → isSafeUrl value = true
  text : ∀ key ∈ ["alt", "aria-label"], ∀ value, n.attr? key = some value →
    isAttributeText value = true

/-- Classes are words, and no word is empty. -/
theorem ne_empty_of_mem_classes {n : Element} {c : String} (h : c ∈ n.classes) : c ≠ "" := by
  rintro rfl
  unfold classes at h
  split at h
  · exact Text.ne_nil_of_mem_words h rfl
  · cases h

/-- Sound elements are harmless. -/
theorem Sound.harmless {n : Element} (h : n.Sound) : n.Harmless where
  tag := h.tag
  distinct := h.keys
  known a ha := (h.attributes a ha).known
  markup a ha c hc := mt isMarkup_iff.2 (Bool.eq_false_iff.1 ((h.attributes a ha).markup c hc))
  classes c hc := ⟨ne_empty_of_mem_classes hc,
    fun _ hd => isStyleChar_iff.1 (h.isStyleChar_of_mem_classes hc hd)⟩
  identity value hvalue := (h.attributes _ (mem_of_attr?_eq_some hvalue)).identity rfl
  url key hkey value hvalue := by
    have hkeys : key = "href" ∨ key = "src" := by simpa using hkey
    exact (h.attributes _ (mem_of_attr?_eq_some hvalue)).url hkeys
  text key hkey value hvalue := by
    have hkeys : key = "alt" ∨ key = "aria-label" := by simpa using hkey
    exact (h.attributes _ (mem_of_attr?_eq_some hvalue)).text hkeys

end Element

-- ================================================================== execution

open Element (AllSound allSound_append allSound_cons allSound_nil)

namespace Value

/-- A literal shows as a bare text, which is sound. -/
theorem allSound_ofLiteral (value : Literal) : AllSound (ofLiteral value).elements := by
  have hbare (s : String) : AllSound [Element.ofText s] :=
    allSound_cons.2 ⟨⟨Element.sound_bare (by decide) _ _, allSound_nil⟩, allSound_nil⟩
  cases value with
  | nil => exact allSound_nil
  | _ => exact hbare _

/-- What is made to be shown around sound elements is sound. -/
theorem sound_renderElement {v : Value} (h : AllSound v.elements) :
    AllSound [v.renderElement] := by
  rcases v.renderElement_eq with heq | heq
  · exact heq ▸ h
  · rw [heq]
    exact allSound_cons.2 ⟨⟨Element.sound_bare (by decide) _ _, h⟩, allSound_nil⟩

end Value

namespace Execution

/-- What statements contribute is sound if what each one comes to is. -/
theorem StatementsYield.allSound {statements : List Expr} {es : List Element}
    (h : StatementsYield (fun _ v => AllSound v.elements) statements es) : AllSound es := by
  obtain ⟨values, hvalues, rfl⟩ := h
  induction hvalues with
  | nil => exact allSound_nil
  | cons hthis _ ih =>
    rw [List.flatMap_cons]
    exact allSound_append.2 ⟨hthis, ih⟩

/-- A call keeps soundness: what it comes to is sound if its receiver and its
block are. -/
theorem call_allSound {c : Call} {receiver : Option Value} {args : List EvaluatedArgument}
    {children : Option (List Element)}
    (h : PartsYield (fun _ v => AllSound v.elements) c receiver args children) :
    Action.Yields (dispatch table receiver (invocationOf c.method args children c.span))
      fun v => AllSound v.elements := by
  obtain ⟨source, method, arguments, block, span⟩ := c
  obtain ⟨hreceiver, -, hchildren⟩ := h
  cases hreceiver with
  | some hsound =>
    -- a modifier decorates the elements of the receiver, and takes none from the block
    exact (dispatch_modifier_yields _ _).mono fun v hv => hsound.decorated hv.2
  | none =>
    refine (dispatch_operation_yields _).mono fun v hv => hv.sound ?_
    cases hchildren with
    | none => exact allSound_nil
    | some hstatements => exact hstatements.allSound

/-- Whatever an expression comes to is sound, by induction on its evaluation. -/
theorem evaluate_allSound (e : Expr) (scope : Scope) :
    Action.Yields (evaluate table scope e) fun v => AllSound v.elements :=
  evaluate_yields (fun value _ => Value.allSound_ofLiteral value) (fun _ _ h => h.allSound)
    (fun _ _ _ _ h => call_allSound h) e scope

/-- Every element of every result is harmless, at whatever depth it stands. -/
theorem execute_harmless {program : Expr} {value : Value}
    (h : ((execute table program).run ()).1 = .ok value) :
    ∀ n ∈ value.renderElement.nodes, n.Harmless := by
  intro n hn
  have hsound := Value.sound_renderElement (evaluate_allSound program .root () value h)
  apply Element.Sound.harmless
  apply hsound
  rwa [Element.nodesOf, Element.nodesOf, List.append_nil]

/-- Text that reads like markup, with an identity. -/
def quotedMarkup : Expr :=
  .call ⟨some (.call ⟨none, "text", [.positional (.literal (.string "<hr id='") ⟨5, 15⟩)], none,
    ⟨0, 16⟩⟩), "id", [.positional (.literal (.symbol "top") ⟨20, 24⟩)], none, ⟨0, 25⟩⟩

/-- It stays text, in an element with that identity. -/
theorem execute_harmless_quotedMarkup :
    let e : Element := ⟨"span", [("id", "top")], some "<hr id='", []⟩
    ((execute table quotedMarkup).run ()).1 = .ok (.element e) ∧ ∀ n ∈ e.nodes, n.Harmless := by
  intro e
  have h : ((execute table quotedMarkup).run ()).1 = .ok (.element e) := rfl
  exact ⟨h, execute_harmless h⟩

end Execution

end UiScript
