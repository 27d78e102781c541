/-
Filters only cut. A list of allowed names and a look at the strings make
reading refuse more than the denylist alone does. They never change what is
read: either the same program comes out, or reading stops at the first word
that a filter is against, or, where there is no program in the first place,
at the error that stands there anyway or before it.

# The two halves

Where there is a program, it has a derivation, so that reading it under
other rules is a review of its words, in the order of the source
(`Passing.parse_comes`). Where there is none, no derivation says how far
reading gets, and the two runs are compared step by step
(`readProgram_agrees`).

# Main statements

* `violation?_listing`: what a list of names adds to the denylist.
* `review_filtered`: the review ends at the first offence.
* `parse_of_unfiltered`: so does the run, where there is a program.
* `parse_filtered`: a filtered run, next to the one under the denylist alone.
-/
import UiScript.Proofs.Grammar.Acceptance
import UiScript.Proofs.Reading.Comparison

namespace UiScript

-- =================================================================== filters

/-- What a list of names adds to the denylist. -/
theorem Policy.violation?_listing (names : List String) (name : String) :
    (listing names).violation? name = (denylistOnly.violation? name).or
      (if name ∈ names then none else some .unlisted) := by
  unfold violation?
  by_cases hshape : isSuspiciousName name || !isShapedAsName name.toList
  · rw [if_pos hshape, if_pos hshape]
    rfl
  by_cases hcapital : startsWithCapital name.toList
  · rw [if_neg hshape, if_neg hshape, if_pos hcapital, if_pos hcapital]
    rfl
  by_cases hdunder : ['_', '_'].isPrefixOf name.toList
  · rw [if_neg hshape, if_neg hshape, if_neg hcapital, if_neg hcapital, if_pos hdunder,
      if_pos hdunder]
    rfl
  rw [if_neg hshape, if_neg hshape, if_neg hcapital, if_neg hcapital, if_neg hdunder,
    if_neg hdunder]
  by_cases hdenied : isDenied name
  · rw [if_pos hdenied, if_pos hdenied]
    rfl
  · rw [if_neg hdenied, if_neg hdenied]
    simp [listing, denylistOnly]

namespace ParseRules

variable (names : List String) (strict : Bool) (maxDepth maxChain : Nat)

/-- Nothing but the denylist, and the limits. -/
def unfiltered : ParseRules := ⟨.denylistOnly, ⟨maxDepth, maxChain, false⟩⟩

/-- Only names of a list, and strings are looked at if `strict` says so. -/
def filtered : ParseRules := ⟨.listing names, ⟨maxDepth, maxChain, strict⟩⟩

/-- What the filters have against a word. -/
def offence (names : List String) (strict : Bool) : Role × Span → Option Rejection
  | (.called name, span) => if name ∈ names then none else some ⟨span, name, .unlisted⟩
  | (.literal (.string text), span) =>
    if strict = true ∧ Policy.isSuspiciousLiteral text = true then
      some ⟨span, text, .suspiciousLiteral⟩
    else none
  | _ => none

/-- The filters have nothing against a program. -/
def Unobjectionable (names : List String) (strict : Bool) (node : Expr) : Prop :=
  (∀ name ∈ node.methodNames, name ∈ names)
    ∧ (strict = true → ∀ text, .string text ∈ node.literals →
      Policy.isSuspiciousLiteral text = false)

variable {names strict maxDepth maxChain}

theorem offence_eq_none_iff {role : Role} {span : Span} :
    offence names strict (role, span) = none ↔ (∀ name, role = .called name → name ∈ names)
      ∧ (strict = true → ∀ text, role = .literal (.string text) →
        Policy.isSuspiciousLiteral text = false) := by
  cases role with
  | called name => simp [offence]
  | key name => simp [offence]
  | literal value => cases value <;> simp [offence]

/-- A program is unobjectionable if its words are. -/
theorem unobjectionable_iff {node : Expr} {words : List (Role × Span)}
    (hwords : node.roles = words.map Prod.fst) :
    Unobjectionable names strict node ↔ ∀ w ∈ words, offence names strict w = none := by
  constructor
  · rintro ⟨hnames, hstrings⟩ ⟨role, span⟩ hw
    have hrole : role ∈ node.roles := hwords ▸ List.mem_map_of_mem (f := Prod.fst) hw
    refine offence_eq_none_iff.2 ⟨?_, ?_⟩
    · rintro name rfl
      exact hnames name (Role.called_mem_roles_iff.1 hrole)
    · rintro hstrict text rfl
      exact hstrings hstrict text (Role.literal_mem_roles_iff.1 hrole)
  · intro h
    have hmem : ∀ role ∈ node.roles, ∃ span, (role, span) ∈ words := by
      intro role hrole
      rw [hwords] at hrole
      obtain ⟨⟨_, span⟩, hw, rfl⟩ := List.mem_map.1 hrole
      exact ⟨span, hw⟩
    constructor
    · intro name hname
      obtain ⟨span, hw⟩ := hmem _ (Role.called_mem_roles_iff.2 hname)
      exact (offence_eq_none_iff.1 (h _ hw)).1 name rfl
    · intro hstrict text htext
      obtain ⟨span, hw⟩ := hmem _ (Role.literal_mem_roles_iff.2 htext)
      exact (offence_eq_none_iff.1 (h _ hw)).2 hstrict text rfl

-- ================================================================ a program

/-- A word that the denylist admits is admitted unless a filter is against it. -/
theorem admitRole_filtered {role : Role} {span : Span}
    (h : (unfiltered maxDepth maxChain).admitRole role span = .ok ()) :
    (filtered names strict maxDepth maxChain).admitRole role span
      = match offence names strict (role, span) with
        | none => .ok ()
        | some rejection => .error (.refused rejection) := by
  cases role with
  | key name => rfl
  | called name =>
    have hname : Policy.denylistOnly.violation? name = none := refuse_checkName_eq_ok_iff.1 h
    simp only [admitRole, filtered, Policy.checkName, Policy.violation?_listing, hname,
      Option.none_or, offence]
    by_cases hlisted : name ∈ names
    · simp only [if_pos hlisted]
      rfl
    · simp only [if_neg hlisted]
      rfl
  | literal value =>
    cases value with
    | string text =>
      cases strict with
      | false => rfl
      | true =>
        simp only [admitRole, admitLiteral, filtered, Policy.checkLiteral, offence, if_true,
          true_and]
        split <;> rfl
    | _ => rfl

/-- The review of words that the denylist admits ends at the first offence.
Words that the stricter policy admits are passed by both reviews. -/
theorem review_filtered (names : List String) (strict : Bool) {words : List (Role × Span)}
    (h : (unfiltered maxDepth maxChain).review words = .ok ()) :
    (filtered names strict maxDepth maxChain).review words
      = match words.findSome? (offence names strict) with
        | none => .ok ()
        | some rejection => .error (.refused rejection) := by
  induction words with
  | nil => rfl
  | cons word words ih =>
    obtain ⟨role, span⟩ := word
    obtain ⟨_, hthis, hrest⟩ := bind_eq_ok_iff.1 h
    rw [review, admitRole_filtered hthis, List.findSome?_cons]
    cases offence names strict (role, span) with
    | none => exact ih hrest
    | some rejection => rfl

/-- A program under filters is the same program, or its first offending word
is refused. Both readings make the same moves up to the first word that only
the filters refuse, and the filters are asked about words alone. -/
theorem parse_of_unfiltered (names : List String) (strict : Bool) {tokens : List Token}
    {node : Expr} (h : (unfiltered maxDepth maxChain).parse tokens = .ok node) :
    ∃ words rest, node.roles = words.map Prod.fst
      ∧ Token.roles .endOfInput (tokens.filter fun t => !t.isComment) = words ++ rest
      ∧ (filtered names strict maxDepth maxChain).parse tokens
        = match words.findSome? (offence names strict) with
          | none => .ok node
          | some rejection => .error (.refused rejection) := by
  obtain ⟨hmarks, d, rest, hseen, hrest, -, hpassing, rfl⟩ := derivation_of_parse h
  -- a derivation does not depend on the rules, so the filtered run is a review of its words
  have hcomes : (filtered names strict maxDepth maxChain).Comes d.roles
      ((filtered names strict maxDepth maxChain).parse tokens) d.expr :=
    hpassing.parse_comes rfl rfl hmarks hseen hrest
  have hreview := review_filtered names strict
    (review_eq_ok_of_admits d.roles_expr hpassing.admits)
  refine ⟨d.roles, Token.roles .endOfInput rest, d.roles_expr, ?_, ?_⟩
  · rw [hseen, Token.roles_append, hrest, d.roles_tokens]
  · unfold Comes at hcomes
    rw [hcomes, hreview]
    cases d.roles.findSome? (offence names strict) <;> rfl

-- ============================================================== no program

/-- A failure that only a filter knows. -/
def Cut (failure : ParseFailure) : Prop :=
  ∃ rejection : Rejection, failure = .refused rejection
    ∧ (rejection.violation = .unlisted ∨ rejection.violation = .suspiciousLiteral)

theorem stricter_filtered (names : List String) (strict : Bool) (maxDepth maxChain : Nat) :
    Stricter 0 Cut (unfiltered maxDepth maxChain) (filtered names strict maxDepth maxChain) := by
  refine ⟨rfl, rfl, ?_, ?_⟩
  · intro name span
    simp only [unfiltered, filtered, Policy.checkName, Policy.violation?_listing, Span.shift_zero]
    cases Policy.denylistOnly.violation? name with
    | some violation => exact .fail (by simp)
    | none =>
      by_cases hname : name ∈ names
      · simp only [if_pos hname]
        trivial
      · simp only [if_neg hname]
        exact ⟨_, rfl, .inl rfl⟩
  · intro value span
    rw [Span.shift_zero]
    cases value with
    | string text =>
      cases strict with
      | false => exact trivial
      | true =>
        show Agree 0 Cut _ (.ok ()) (refuse (Policy.checkLiteral text span))
        unfold Policy.checkLiteral
        cases Policy.isSuspiciousLiteral text with
        | false => exact trivial
        | true => exact ⟨_, rfl, .inr rfl⟩
    | _ => exact trivial

/-- Stricter rules read what the others read, unless they are cut short. -/
theorem parse_agrees {rules rules' : ParseRules} {cut : ParseFailure → Prop}
    (hrules : Stricter 0 cut rules rules') (tokens : List Token) :
    Agree 0 cut (fun _ _ => True) (rules.parse tokens) (rules'.parse tokens) := by
  obtain ⟨hrests, -, -⟩ := Cursor.ofTokens_spec tokens
  obtain ⟨spans, hpasses, -⟩ := Cursor.skipSeparators_passes hrests
  have hid : Token.shift 0 = id := funext Token.shift_zero
  have haligned : (startOf tokens).Aligned 0 (startOf tokens) :=
    ⟨hpasses.rests, hpasses.rests, by rw [hid, List.map_id], rfl, fun hne => absurd rfl hne⟩
  have hmarks : Agree 0 cut (fun _ _ => True) (refuse (checkMarks tokens))
      (refuse (checkMarks tokens)) := by
    cases refuse (checkMarks tokens) with
    | error failure => exact .fail failure.shift_zero.symm
    | ok _ => trivial
  rw [parse_eq, parse_eq]
  refine hmarks.bind fun _ _ _ _ => ?_
  split
  · exact .fail (ParseFailure.shift_zero _).symm
  · exact (readProgram_agrees hrules [] [] haligned).bind fun _ _ _ _ => trivial

-- ================================================================= filtering

/-- A filtered run, next to the one under the denylist alone. A program that
is unobjectionable is the program that is read; from any other, the first
offending word is refused, in the order of the source. What is no program is
none; it fails as it did, or a filter cuts it short. -/
theorem parse_filtered (names : List String) (strict : Bool) (maxDepth maxChain : Nat)
    (tokens : List Token) :
    match (unfiltered maxDepth maxChain).parse tokens with
    | .ok node =>
      (Unobjectionable names strict node →
        (filtered names strict maxDepth maxChain).parse tokens = .ok node)
      ∧ (¬ Unobjectionable names strict node → ∃ before word after rejection,
        Token.roles .endOfInput (tokens.filter fun t => !t.isComment) = before ++ word :: after
          ∧ (∀ w ∈ before, offence names strict w = none)
          ∧ offence names strict word = some rejection
          ∧ (filtered names strict maxDepth maxChain).parse tokens = .error (.refused rejection))
    | .error e =>
      (filtered names strict maxDepth maxChain).parse tokens = .error e
        ∨ ∃ rejection : Rejection,
          (rejection.violation = .unlisted ∨ rejection.violation = .suspiciousLiteral)
            ∧ (filtered names strict maxDepth maxChain).parse tokens
              = .error (.refused rejection) := by
  split
  -- read without the filters: these are asked about the words, one after the other
  · next node h =>
    obtain ⟨words, rest, hroles, htokens, hparse⟩ := parse_of_unfiltered names strict h
    rw [htokens, hparse, unobjectionable_iff hroles, ← List.findSome?_eq_none_iff]
    cases hfind : words.findSome? (offence names strict) with
    | none => exact ⟨fun _ => rfl, fun hne => absurd rfl hne⟩
    | some rejection =>
      refine ⟨fun hnone => ?_, fun _ => ?_⟩
      · cases hnone
      · obtain ⟨before, word, after, rfl, hword, hbefore⟩ := List.findSome?_eq_some_iff.1 hfind
        refine ⟨before, word, after ++ rest, rejection, ?_, hbefore, hword, rfl⟩
        rw [List.append_assoc, List.cons_append]
  -- not read without them: the same failure comes, or a word is refused before it
  · next e h =>
    have hagree := parse_agrees (stricter_filtered names strict maxDepth maxChain) tokens
    rw [h] at hagree
    cases hfiltered : (filtered names strict maxDepth maxChain).parse tokens with
    | ok node =>
      rw [hfiltered] at hagree
      cases hagree
    | error f =>
      rw [hfiltered] at hagree
      rcases hagree with rfl | ⟨rejection, rfl, hviolation⟩
      · exact .inl (by rw [ParseFailure.shift_zero])
      · exact .inr ⟨rejection, hviolation, rfl⟩

end ParseRules

end UiScript
