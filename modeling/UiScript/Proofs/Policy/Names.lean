/-
The names that a program may call, said without the checks: a name is a small
letter or an underscore, and then letters, digits and underscores; it does
not start with two underscores, it is not on the denylist, and it is listed
if the policy has a list. What is said of a refused name is the first of five
rules that it breaks, the others notwithstanding.

The checks overlap. A name that is shaped as one has none of the characters of
shells and paths, so the shape decides about both; and a capital letter in
front is all that keeps such a name from being one of a call.

# Main statements

* `isShapedAsName_iff`: the shape of names.
* `breaks_iff`: what the rules ask, and what is checked.
* `violation?_eq_find?`: the rules are gone through in order.
* `allows_iff`, `allows_listing_iff`: the names that may be called.
* `allows_exactly`: which names may be called, under a policy and under a
  narrower one, and what is said of the others.
-/
import UiScript.Policy.Basic
import UiScript.Proofs.Text.Characters

namespace UiScript.Policy

open Text

-- ==================================================================== names

/-- The characters `[A-Za-z0-9_]`. -/
def InName (c : Char) : Prop :=
  ('A' ≤ c ∧ c ≤ 'Z') ∨ ('a' ≤ c ∧ c ≤ 'z') ∨ ('0' ≤ c ∧ c ≤ '9') ∨ c = '_'

/-- The names `[A-Za-z_][A-Za-z0-9_]*`. -/
def IsName (cs : List Char) : Prop :=
  ∃ first rest, cs = first :: rest
    ∧ (('A' ≤ first ∧ first ≤ 'Z') ∨ ('a' ≤ first ∧ first ≤ 'z') ∨ first = '_')
    ∧ ∀ c ∈ rest, InName c

/-- The names `[a-z_][A-Za-z0-9_]*`. -/
def IsSmallName (cs : List Char) : Prop :=
  ∃ first rest, cs = first :: rest ∧ (('a' ≤ first ∧ first ≤ 'z') ∨ first = '_')
    ∧ ∀ c ∈ rest, InName c

/-- The rules on names: what it is to break the rule that a violation is of. -/
def Breaks (policy : Policy) (name : String) : Violation → Prop
  | .suspiciousName => (∃ before after, name.toList = before ++ ['.', '.'] ++ after)
      ∨ (∃ c ∈ name.toList, c ∈ ";\x60$|&></\n\x00".toList) ∨ ¬ IsName name.toList
  | .constant => ∃ first ∈ name.toList.head?, 'A' ≤ first ∧ first ≤ 'Z'
  | .dunder => ['_', '_'] <+: name.toList
  | .denied => name ∈ denylist
  | .unlisted => ∃ names, policy.allowlist = some names ∧ name ∉ names
  | .suspiciousMark | .suspiciousLiteral => False

/-- The violations that there are of names, in the order in which they are
looked for. -/
def nameViolations : List Violation := [.suspiciousName, .constant, .dunder, .denied, .unlisted]

-- ================================================================= shapes

/-- What is checked of each character of a name but the first. -/
theorem inName_iff {c : Char} : (c.isAlphanum || c == '_') = true ↔ InName c := by
  simp only [Char.isAlphanum, Bool.or_eq_true, isAlpha_iff, isDigit_iff, beq_iff_eq, InName,
    or_assoc]

/-- The shape of names. A letter or an underscore comes first, and then these
or digits. -/
theorem isShapedAsName_iff {cs : List Char} : isShapedAsName cs = true ↔ IsName cs := by
  cases cs with
  | nil => simp [isShapedAsName, IsName]
  | cons first rest =>
    simp only [isShapedAsName, Bool.and_eq_true, List.all_eq_true, inName_iff, IsName,
      List.cons.injEq]
    simp only [Bool.or_eq_true, isAlpha_iff, beq_iff_eq, or_assoc]
    constructor
    · rintro ⟨hfirst, hrest⟩
      exact ⟨first, rest, ⟨rfl, rfl⟩, hfirst, hrest⟩
    · rintro ⟨_, _, ⟨rfl, rfl⟩, hfirst, hrest⟩
      exact ⟨hfirst, hrest⟩

theorem startsWithCapital_iff {cs : List Char} :
    startsWithCapital cs = true ↔ ∃ first ∈ cs.head?, 'A' ≤ first ∧ first ≤ 'Z' := by
  cases cs with
  | nil => simp [startsWithCapital]
  | cons first rest => simp [startsWithCapital, isUpper_iff]

/-- No character stands both among the capital letters and among the other
first ones. -/
theorem not_small_of_capital {c : Char} (h : 'A' ≤ c ∧ c ≤ 'Z') :
    ¬ (('a' ≤ c ∧ c ≤ 'z') ∨ c = '_') := by
  rintro (hsmall | rfl)
  · exact absurd (Char.le_trans hsmall.1 h.2) (by decide)
  · exact absurd h.2 (by decide)

/-- A name that does not start with a capital letter is one of a call. -/
theorem isSmallName_iff {cs : List Char} :
    IsSmallName cs ↔ IsName cs ∧ ¬ ∃ first ∈ cs.head?, 'A' ≤ first ∧ first ≤ 'Z' := by
  constructor
  · rintro ⟨first, rest, rfl, hfirst, hrest⟩
    refine ⟨⟨first, rest, rfl, Or.inr hfirst, hrest⟩, ?_⟩
    rintro ⟨capital, hhead, hcapital⟩
    obtain rfl : first = capital := Option.some.inj hhead
    exact not_small_of_capital hcapital hfirst
  · rintro ⟨⟨first, rest, rfl, hfirst, hrest⟩, hcapital⟩
    exact ⟨first, rest, rfl, hfirst.resolve_left fun h => hcapital ⟨first, rfl, h⟩, hrest⟩

-- ================================================================== rules

/-- The rules on names as they are checked. -/
def breaks (policy : Policy) (name : String) : Violation → Bool
  | .suspiciousName => isSuspiciousName name || !isShapedAsName name.toList
  | .constant => startsWithCapital name.toList
  | .dunder => ['_', '_'].isPrefixOf name.toList
  | .denied => isDenied name
  | .unlisted => policy.allowlist.any fun names => !names.contains name
  | .suspiciousMark | .suspiciousLiteral => false

/-- The characters of shells and paths. -/
theorem isSuspiciousChar_iff {c : Char} :
    isSuspiciousChar c = true ↔ c ∈ ";\x60$|&></\n\x00".toList := by
  simp [isSuspiciousChar, or_assoc]

/-- What the rules ask is what is checked; for the denylist, halving it finds
what is on it. -/
theorem breaks_iff {policy : Policy} {name : String} {violation : Violation} :
    breaks policy name violation = true ↔ Breaks policy name violation := by
  cases violation with
  | suspiciousName =>
    rw [breaks, isSuspiciousName, Bool.or_eq_true, Bool.or_eq_true, occurs_iff, List.any_eq_true,
      Bool.not_eq_true', ← Bool.not_eq_true, isShapedAsName_iff]
    simp only [isSuspiciousChar_iff, Breaks, or_assoc]
  | constant => exact startsWithCapital_iff
  | dunder => exact List.isPrefixOf_iff_prefix
  | denied => exact isDenied_iff
  | unlisted => simp [breaks, Breaks, Option.any_eq_true]
  | suspiciousMark | suspiciousLiteral => simp [breaks, Breaks]

/-- The rules are gone through in order, and the first that is broken is the
one that is named. The order is that of the list of rules, from the shape of
the name to the list of the policy. -/
theorem violation?_eq_find? (policy : Policy) (name : String) :
    policy.violation? name = nameViolations.find? (breaks policy name) := by
  simp only [violation?, nameViolations, List.find?_cons, List.find?_nil, breaks]
  cases isSuspiciousName name || !isShapedAsName name.toList <;>
    cases startsWithCapital name.toList <;> cases ['_', '_'].isPrefixOf name.toList <;>
    cases isDenied name <;> cases policy.allowlist <;> simp
  split <;> simp_all

-- ================================================================ verdicts

/-- The names that may be called. All that is asked of a name stands on the
right: its characters, how it begins, the denylist, and the list of the policy
if there is one. -/
theorem allows_iff {policy : Policy} {name : String} :
    policy.allows name = true ↔
      IsSmallName name.toList ∧ ¬ ['_', '_'] <+: name.toList ∧ name ∉ denylist
        ∧ ∀ names, policy.allowlist = some names → name ∈ names := by
  rw [allows, Option.isNone_iff_eq_none, violation?_eq_none_iff, isShapedAsName_iff,
    ← Bool.not_eq_true, ← Bool.not_eq_true, startsWithCapital_iff, List.isPrefixOf_iff_prefix,
    isSmallName_iff, and_assoc]

/-- A list allows no name that would be refused without it. The list comes on
top of the rules, and never in their place. -/
theorem allows_listing_iff {names : List String} {name : String} :
    (listing names).allows name = true ↔ name ∈ names ∧ denylistOnly.allows name = true := by
  rw [allows_iff, allows_iff]
  constructor
  · rintro ⟨hshape, hdunder, hdenied, hlisted⟩
    exact ⟨hlisted names rfl, hshape, hdunder, hdenied, fun _ h => nomatch h⟩
  · rintro ⟨hlisted, hshape, hdunder, hdenied, -⟩
    exact ⟨hshape, hdunder, hdenied, fun _ h => Option.some.inj h ▸ hlisted⟩

/-- What is said of a refused name is the first rule that it breaks. -/
theorem violation?_eq_some_iff {policy : Policy} {name : String} {violation : Violation} :
    policy.violation? name = some violation ↔
      ∃ before after, nameViolations = before ++ violation :: after
        ∧ Breaks policy name violation ∧ ∀ earlier ∈ before, ¬ Breaks policy name earlier := by
  rw [violation?_eq_find?, List.find?_eq_some_iff_append]
  simp only [breaks_iff, Bool.not_eq_true', ← Bool.not_eq_true]
  constructor
  · rintro ⟨hbreaks, before, after, hsplit, hbefore⟩
    exact ⟨before, after, hsplit, hbreaks, hbefore⟩
  · rintro ⟨before, after, hsplit, hbreaks, hbefore⟩
    exact ⟨hbreaks, before, after, hsplit, hbefore⟩

/-- A policy allows the names of calls that are neither denied nor left out of
its list, so that a list only narrows what is allowed without one; and of a
refused name it says which rule it breaks first. -/
theorem allows_exactly (policy : Policy) (name : String) :
    (policy.allows name = true ↔
        IsSmallName name.toList ∧ ¬ ['_', '_'] <+: name.toList ∧ name ∉ denylist
          ∧ ∀ names, policy.allowlist = some names → name ∈ names)
      ∧ (∀ names, (listing names).allows name = true ↔
          name ∈ names ∧ denylistOnly.allows name = true)
      ∧ ∀ violation, policy.violation? name = some violation ↔
          ∃ before after, nameViolations = before ++ violation :: after
            ∧ Breaks policy name violation ∧ ∀ earlier ∈ before, ¬ Breaks policy name earlier :=
  ⟨allows_iff, fun _ => allows_listing_iff, fun _ => violation?_eq_some_iff⟩

end UiScript.Policy
