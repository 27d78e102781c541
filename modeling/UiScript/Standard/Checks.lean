/-
What may end up in classes and attributes. Nothing that a program passes
can close an attribute, open a tag or name a script: style tokens are made
of a few harmless characters, text holds no markup, and a URL leads to the
web or stays on the page's own host.

# Main statements

* `isMarkup_eq_false_of_isStyleChar` — no character of a style token means
  something to markup.
* `isMarkup_eq_false_of_isSafeUrl` — a URL that passes holds no markup.
-/
import UiScript.Execution.Invocation
import UiScript.Text.Blank
import UiScript.Text.Bytes

namespace UiScript.Standard

open Text

-- ============================================================ characters

/-- The characters of style tokens. -/
def isStyleChar (c : Char) : Bool :=
  c.isLower || c.isDigit || c == '-' || c == '_' || c == ':' || c == '/' || c == '.'

/-- Control characters, and those that mean something to markup. -/
def isMarkup (c : Char) : Bool :=
  isControl c || c == '<' || c == '>' || c == '\x22' || c == '\x27' || c == '\x60'

-- ================================================================= texts

/-- The greatest width of a style token. -/
def maxTokenWidth : Nat := 64

/-- The greatest width of an attribute's text. -/
def maxTextWidth : Nat := 256

/-- A piece of a class: `xl`, `blue-500`, `1/2`, `md:flex`. -/
def isStyleToken (value : String) : Bool :=
  let cs := value.toList
  !cs.isEmpty && decide (width cs ≤ maxTokenWidth) && cs.all isStyleChar

/-- Text for attributes that hold free text. -/
def isAttributeText (value : String) : Bool :=
  let cs := value.toList
  decide (width cs ≤ maxTextWidth) && !cs.any isMarkup

/-- How a URL may start: on the web, at the root of the host, or on the page. -/
def startsUrl (cs : List Char) : Bool :=
  "https://".toList.isPrefixOf cs || "http://".toList.isPrefixOf cs
    || (['/'].isPrefixOf cs && !(['/', '/'].isPrefixOf cs)) || ['#'].isPrefixOf cs

/-- A URL that leads to the web or stays on the host. -/
def isSafeUrl (value : String) : Bool :=
  let cs := value.toList
  startsUrl cs && !cs.any fun c => isBlank c || c == '\\' || isMarkup c

-- ================================================================ checks

variable (inv : Invocation)

/-- Refuses the value of an argument. -/
def refuse {α : Type} (arg reason : String) : Checked α :=
  Invocation.fail (.invalidValue inv.method arg reason)

/-- A style token, given as an argument. -/
def styleToken (arg value : String) : Checked String :=
  if isStyleToken value then .ok value
  else refuse inv arg s!"`{value}` is not a valid style token"

/-- Text of an attribute, given as an argument. -/
def attributeText (arg value : String) : Checked String :=
  if isAttributeText value then .ok value else refuse inv arg "text contains markup characters"

/-- A URL, given as an argument. -/
def safeUrl (arg value : String) : Checked String :=
  if isSafeUrl value then .ok value
  else refuse inv arg "only http(s), root-relative and fragment URLs are allowed"

/-- The positional argument with the given index, as a style token. -/
def positionalToken (index : Nat) : Checked String := do
  styleToken inv (Invocation.positionalLabel index) (← inv.positionalKeyword index)

/-- A named argument as a style token, if it is given. -/
def namedToken (key : String) : Checked (Option String) := do
  match ← inv.namedKeyword key with
  | some value => some <$> styleToken inv key value
  | none => pure none

-- ================================================================== laws

theorem toNat_lt_of_isStyleChar {c : Char} (h : isStyleChar c = true) : c.toNat < 128 := by
  have hlower : c.isLower = (decide (c.val ≥ 97) && decide (c.val ≤ 122)) := rfl
  simp only [isStyleChar, hlower, Char.isDigit, Bool.or_eq_true, Bool.and_eq_true,
    decide_eq_true_eq, beq_iff_eq, ge_iff_le, UInt32.le_iff_toNat_le] at h
  rcases h with (((((⟨_, h⟩ | ⟨_, h⟩) | rfl) | rfl) | rfl) | rfl) | rfl
  · exact Nat.lt_of_le_of_lt h (by decide)
  · exact Nat.lt_of_le_of_lt h (by decide)
  all_goals decide

/-- No character of a style token means something to markup. -/
theorem isMarkup_eq_false_of_isStyleChar {c : Char} (h : isStyleChar c = true) :
    isMarkup c = false := by
  have ascii : ∀ n < 128, isStyleChar (Char.ofNat n) = true → isMarkup (Char.ofNat n) = false := by
    decide
  have hc := ascii c.toNat (toNat_lt_of_isStyleChar h)
  rw [Char.ofNat_toNat] at hc
  exact hc h

/-- A text that passes as a URL holds no markup. -/
theorem isMarkup_eq_false_of_isSafeUrl {value : String} {c : Char} (h : isSafeUrl value = true)
    (hc : c ∈ value.toList) : isMarkup c = false := by
  simp only [isSafeUrl, Bool.and_eq_true, Bool.not_eq_true', List.any_eq_false] at h
  cases hm : isMarkup c with
  | false => rfl
  | true => exact absurd (by simp [hm]) (h.2 c hc)

end UiScript.Standard
