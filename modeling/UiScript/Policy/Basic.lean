/-
The policy: which names a program may call, which characters may stand in
it, and which string literals are refused in strict mode. A policy holds at
most a list of the names it allows; the denylist and the rules on the shape
of a name apply under every policy.

# Main statements

* `violation?_eq_none_iff` — a name may be called exactly if it is shaped
  like one, starts with neither a capital nor two underscores, and is not
  denied but, if names are listed, listed.
-/
import UiScript.Policy.Denylist
import UiScript.Text.Bytes
import UiScript.Text.Search

namespace UiScript

/-- Which names a program may call. -/
structure Policy where
  /-- The only names that may be called, if there is such a list. -/
  allowlist : Option (List String)
deriving DecidableEq, Inhabited

namespace Policy

open Text

/-- Why a name, a character or a literal is refused. -/
inductive Violation where
  /-- The name is on the denylist. -/
  | denied
  /-- The name starts with a capital letter. -/
  | constant
  /-- The name starts with two underscores. -/
  | dunder
  /-- The name holds characters of shells and paths, or is no name at all. -/
  | suspiciousName
  /-- A character that means something to shells and nothing in a program. -/
  | suspiciousMark
  /-- A literal that could escape from where it ends up. -/
  | suspiciousLiteral
  /-- The name is not listed. -/
  | unlisted
deriving DecidableEq

-- ================================================================ policies

/-- Every name but those that are refused under every policy. -/
def denylistOnly : Policy := ⟨none⟩

/-- Only the given names. -/
def listing (names : List String) : Policy := ⟨some names⟩

/-- Whether the policy lists the names that it allows. -/
def hasAllowlist (policy : Policy) : Bool := policy.allowlist.isSome

-- =================================================================== names

/-- The characters of shells and paths, and the two that break lines and
strings. -/
def isSuspiciousChar (c : Char) : Bool :=
  c == ';' || c == '\x60' || c == '$' || c == '|' || c == '&' || c == '>' || c == '<' || c == '/'
    || c == '\n' || c == '\x00'

/-- Whether a text holds two points in a row or a character of shells and
paths. -/
def isSuspiciousName (name : String) : Bool :=
  occurs ['.', '.'] name.toList || name.toList.any isSuspiciousChar

/-- A letter or an underscore, then letters, digits and underscores; all of
ASCII. -/
def isShapedAsName : List Char → Bool
  | [] => false
  | c :: cs => (c.isAlpha || c == '_') && cs.all fun d => d.isAlphanum || d == '_'

/-- Whether the first character is a capital letter of ASCII. -/
def startsWithCapital : List Char → Bool
  | [] => false
  | c :: _ => c.isUpper

/-- The first rule that a name breaks. -/
def violation? (policy : Policy) (name : String) : Option Violation :=
  if isSuspiciousName name || !isShapedAsName name.toList then some .suspiciousName
  else if startsWithCapital name.toList then some .constant
  else if ['_', '_'].isPrefixOf name.toList then some .dunder
  else if isDenied name then some .denied
  else match policy.allowlist with
    | some names => if names.contains name then none else some .unlisted
    | none => none

/-- Whether a name may be called. -/
def allows (policy : Policy) (name : String) : Bool := (policy.violation? name).isNone

-- ============================================================== characters

/-- The marks that mean something to shells and nothing in a program. -/
def isSuspiciousMark (c : Char) : Bool :=
  c == '\x60' || c == '$' || c == '|' || c == '&' || c == '>' || c == '<' || c == '!' || c == '%'

-- ================================================================ literals

/-- Command substitution, interpolation, NUL, and ways to a parent directory. -/
def suspiciousPatterns : List (List Char) :=
  [['\x60'], ['$', '('], ['#', '{'], ['\x00'], ['.', '.', '/'], ['.', '.', '\\']]

/-- The start of a script tag, which counts in any case. -/
def scriptTag : List Char := ['<', 's', 'c', 'r', 'i', 'p', 't']

/-- Whether a script tag stands among the bytes of a text, case aside. -/
def holdsScriptTag (cs : List Char) : Bool := occurs (bytes scriptTag) ((bytes cs).map lowerByte)

/-- Whether a text holds one of the patterns or a script tag. -/
def isSuspiciousText (cs : List Char) : Bool :=
  suspiciousPatterns.any (fun pattern => occurs pattern cs) || holdsScriptTag cs

/-- Whether a literal is refused in strict mode. -/
def isSuspiciousLiteral (value : String) : Bool := isSuspiciousText value.toList

-- ==================================================================== laws

/-- A character of shells and paths is part of no name. -/
theorem not_isSuspiciousChar_of_isShapedAsName {cs : List Char} (h : isShapedAsName cs = true) :
    cs.any isSuspiciousChar = false ∧ occurs ['.', '.'] cs = false := by
  have alphanum : ∀ d : Char, (d.isAlphanum || d == '_') = true →
      isSuspiciousChar d = false ∧ d ≠ '.' := by
    intro d hd
    constructor
    · cases hs : isSuspiciousChar d with
      | false => rfl
      | true =>
        exfalso
        simp only [isSuspiciousChar, Bool.or_eq_true, beq_iff_eq] at hs
        rcases hs with ((((((((rfl | rfl) | rfl) | rfl) | rfl) | rfl) | rfl) | rfl) | rfl) | rfl <;>
          revert hd <;> decide
    · rintro rfl
      revert hd
      decide
  cases cs with
  | nil => cases h
  | cons c cs =>
    simp only [isShapedAsName, Bool.and_eq_true, List.all_eq_true] at h
    have hall : ∀ d ∈ c :: cs, isSuspiciousChar d = false ∧ d ≠ '.' := by
      intro d hd
      rcases List.mem_cons.1 hd with rfl | hd
      · refine alphanum d ?_
        have := h.1
        simp only [Char.isAlphanum, Bool.or_eq_true] at this ⊢
        exact this.imp_left Or.inl
      · exact alphanum d (h.2 d hd)
    constructor
    · rw [List.any_eq_false]
      intro d hd
      simp [(hall d hd).1]
    · cases ho : occurs ['.', '.'] (c :: cs) with
      | false => rfl
      | true =>
        obtain ⟨before, after, heq⟩ := occurs_iff.1 ho
        exact absurd rfl (hall '.' (by simp [heq])).2

/-- Which names may be called. The rules are listed as the check goes through
them; the order does not matter here, only which rule is named when one is
broken. -/
theorem violation?_eq_none_iff {policy : Policy} {name : String} :
    policy.violation? name = none ↔
      isShapedAsName name.toList = true ∧ startsWithCapital name.toList = false
        ∧ ['_', '_'].isPrefixOf name.toList = false ∧ name ∉ denylist
        ∧ ∀ names, policy.allowlist = some names → name ∈ names := by
  unfold violation?
  cases hshape : isShapedAsName name.toList with
  | false => simp
  | true =>
    obtain ⟨hchars, hpoints⟩ := not_isSuspiciousChar_of_isShapedAsName hshape
    simp only [isSuspiciousName, hchars, hpoints, isDenied_iff]
    cases startsWithCapital name.toList <;> cases ['_', '_'].isPrefixOf name.toList <;>
      by_cases hd : name ∈ denylist <;> cases policy.allowlist <;> simp [hd]

end Policy

end UiScript
