/-
The strings that could escape from where they end up: exactly those that hold
a harmful text somewhere. What stands around it does not hide it, and neither
do capital letters in a script tag, nor other characters next to it, though
the tag is looked for among bytes: a byte of the tag is part of no other
character.

What is put to the policy is the value of a literal, which is there after the
escapes are decoded. So there is no way of spelling a harmful text in a source
that is read while literals are looked at.

# Main statements

* `holdsScriptTag_iff`: where a script tag is, in any case.
* `isSuspiciousText_iff`: the texts that are refused.
* `harmful_refused`: neither embedded nor spelled in another way does a
  harmful text come through.
-/
import UiScript.Proofs.Pipeline
import UiScript.Proofs.Scanning.CodePoints
import UiScript.Proofs.Text.Octets

namespace UiScript

namespace Policy

open Text

-- ============================================================== harmful texts

/-- Command substitution, interpolation, NUL, ways to a parent directory, and
the start of a script tag in any case. -/
def Harmful (p : List Char) : Prop :=
  p ∈ ["\x60", "$(", "#\x7b", "\x00", "../", "..\\"].map String.toList
    ∨ p.map Char.toLower = "<script".toList

/-- A text with a harmful one somewhere in it. -/
def HoldsHarmful (cs : List Char) : Prop := ∃ a p b, cs = a ++ p ++ b ∧ Harmful p

theorem HoldsHarmful.append {cs : List Char} (h : HoldsHarmful cs) (before after : List Char) :
    HoldsHarmful (before ++ cs ++ after) := by
  obtain ⟨a, p, b, rfl, hp⟩ := h
  exact ⟨before ++ a, p, b ++ after, by simp, hp⟩

-- ================================================================ the checks

/-- A tag is found among the bytes where it is among the characters, in any
case. Small and capital letters are told apart neither among the bytes nor
among the characters. -/
theorem holdsScriptTag_iff {cs : List Char} :
    holdsScriptTag cs = true ↔ ∃ a p b, cs = a ++ p ++ b ∧ p.map Char.toLower = scriptTag := by
  have hall : scriptTag.all (fun c => c.utf8Size == 1) = true := rfl
  have hascii : ∀ c ∈ scriptTag, c.utf8Size = 1 := by simpa using hall
  calc holdsScriptTag cs = true
      ↔ bytes scriptTag <:+: bytes (cs.map Char.toLower) := by
        rw [holdsScriptTag, map_lowerByte_bytes, occurs_iff]
        exact exists_congr fun a => exists_congr fun b => eq_comm
    _ ↔ scriptTag <:+: cs.map Char.toLower := isInfix_bytes hascii
    _ ↔ ∃ a p b, cs = a ++ p ++ b ∧ p.map Char.toLower = scriptTag := by
        constructor
        · rintro ⟨a, b, h⟩
          obtain ⟨ap, b, rfl, hap, rfl⟩ := List.map_eq_append_iff.1 h.symm
          obtain ⟨a, p, rfl, rfl, hp⟩ := List.map_eq_append_iff.1 hap
          exact ⟨a, p, b, rfl, hp⟩
        · rintro ⟨a, p, b, rfl, hp⟩
          exact ⟨a.map Char.toLower, b.map Char.toLower, by simp [hp]⟩

/-- The texts that are refused are those that hold a harmful one. The check
goes through the bytes, the right side through the characters. -/
theorem isSuspiciousText_iff {cs : List Char} : isSuspiciousText cs = true ↔ HoldsHarmful cs := by
  rw [isSuspiciousText, Bool.or_eq_true, List.any_eq_true, holdsScriptTag_iff]
  simp only [occurs_iff]
  constructor
  · rintro (⟨p, hp, a, b, h⟩ | ⟨a, p, b, h, hp⟩)
    · exact ⟨a, p, b, h, .inl hp⟩
    · exact ⟨a, p, b, h, .inr hp⟩
  · rintro ⟨a, p, b, h, hp | hp⟩
    · exact .inl ⟨p, hp, a, b, h⟩
    · exact .inr ⟨a, p, b, h, hp⟩

theorem isSuspiciousLiteral_iff {value : String} :
    isSuspiciousLiteral value = true ↔ HoldsHarmful value.toList :=
  isSuspiciousText_iff

end Policy

-- ============================================================ whole sources

namespace Interpreter

open Policy (HoldsHarmful isSuspiciousLiteral)
open Token.StringLiteral (Names Piece)

variable {i : Interpreter} {policy : Policy} {source : String} {program : Expr}

/-- No literal of a program is refused if literals are looked at. -/
theorem not_isSuspiciousLiteral_of_parse (hstrict : i.config.strictLiterals = true)
    (hparse : i.parseUnder policy source = .ok program) {value : String}
    (hvalue : .string value ∈ program.literals) : isSuspiciousLiteral value = false := by
  obtain ⟨tokens, -, hprogram⟩ := parseUnder_eq_ok_iff.1 hparse
  exact (ParseRules.admitted_of_parse hprogram).2.2 hstrict value hvalue

/-- A text is refused exactly if a harmful one is somewhere in it, and stays
refused whatever is put around it. So, where literals are looked at, no
literal of any program holds a harmful text, however its source spells it. -/
theorem harmful_refused (value : String) :
    (isSuspiciousLiteral value = true ↔ HoldsHarmful value.toList)
      ∧ (isSuspiciousLiteral value = true →
        ∀ a b : String, isSuspiciousLiteral (a ++ value ++ b) = true)
      ∧ ∀ (i : Interpreter) (policy : Policy) (source : String) (program : Expr),
        i.config.strictLiterals = true → i.parseUnder policy source = .ok program →
          .string value ∈ program.literals → ¬ HoldsHarmful value.toList := by
  refine ⟨Policy.isSuspiciousLiteral_iff, ?_, ?_⟩
  · intro h a b
    rw [Policy.isSuspiciousLiteral_iff] at h ⊢
    rw [String.toList_append, String.toList_append]
    exact h.append a.toList b.toList
  · intro i policy source program hstrict hparse hvalue hharmful
    have hrefused := Policy.isSuspiciousLiteral_iff.2 hharmful
    rw [not_isSuspiciousLiteral_of_parse hstrict hparse hvalue] at hrefused
    exact Bool.false_ne_true hrefused

/-- A program that is nothing but a literal. -/
def bareLiteral (value : Literal) (span : Span) : Derivation.Program :=
  ⟨[], .mk (.literal value span) .none, .done []⟩

/-- An interpreter that looks at literals. -/
def watchful : Interpreter := ⟨⟨64, 128, true, true⟩, none⟩

/-- A dollar sign that is spelled by its number, with a letter behind it. -/
theorem ofSource_escaped :
    Token.ofSource "\"\\u\x7b24\x7dy\""
      = .ok [⟨.string "$y", ⟨0, 9⟩⟩, ⟨.endOfInput, ⟨9, 9⟩⟩] := by
  have hnames : Names ['2', '4'] '$' :=
    ⟨by decide, by decide, [2, 4], .cons (.inl rfl) (.cons (.inl rfl) .nil), by decide⟩
  have hps : ∀ p ∈ [Piece.codePoint ['2', '4'] '$', .plain 'y'], p.Valid := by
    simpa [Piece.Valid] using hnames
  rw [Token.ofSource_eq_scan (by decide)]
  exact congrArg _ (Token.scan_pieces hps rfl rfl)

theorem parseUnder_escaped :
    watchful.parseUnder .denylistOnly "\"\\u\x7b24\x7dy\""
      = .ok (.literal (.string "$y") ⟨0, 9⟩) := by
  refine parseUnder_eq_ok_iff.2 ⟨_, ofSource_escaped, ?_⟩
  exact ParseRules.parse_of_derivation (d := bareLiteral (.string "$y") ⟨0, 9⟩) rfl rfl rfl
    ⟨by decide, by decide, by decide, by decide⟩

/-- The dollar sign comes through with a letter behind it, and not with a
round bracket. -/
theorem harmful_refused_escaped :
    watchful.parseUnder .denylistOnly "\"\\u\x7b24\x7dy\""
        = .ok (.literal (.string "$y") ⟨0, 9⟩)
      ∧ ¬ HoldsHarmful "$y".toList ∧ isSuspiciousLiteral "$(y" = true := by
  have hin : .string "$y" ∈ (Expr.literal (.string "$y") ⟨0, 9⟩).literals :=
    List.mem_singleton_self _
  refine ⟨parseUnder_escaped, ?_, ?_⟩
  · exact (harmful_refused "$y").2.2 watchful .denylistOnly _ _ rfl parseUnder_escaped hin
  · exact (harmful_refused "$(").2.1 rfl "" "y"

end Interpreter

end UiScript
