/-
Looking for a text inside another one, character by character or byte by byte.

# Main statements

* `occurs_iff` — a pattern occurs exactly in the texts that have it between
  two other texts.
-/

namespace UiScript.Text

variable {α : Type} [BEq α]

/-- Whether the pattern stands somewhere in the text. -/
def occurs (pattern : List α) : List α → Bool
  | [] => pattern.isEmpty
  | c :: cs => pattern.isPrefixOf (c :: cs) || occurs pattern cs

variable [LawfulBEq α]

/-- A pattern occurs exactly in the texts that have it between two other
texts. Nothing in it depends on what the elements are, so it serves bytes as
well. -/
theorem occurs_iff {pattern cs : List α} :
    occurs pattern cs = true ↔ ∃ before after, cs = before ++ pattern ++ after := by
  induction cs with
  | nil =>
    constructor
    · intro h
      have : pattern = [] := List.isEmpty_iff.1 h
      exact ⟨[], [], by simp [this]⟩
    · rintro ⟨before, after, h⟩
      have : pattern = [] := by
        have := List.append_eq_nil_iff.1 h.symm
        exact (List.append_eq_nil_iff.1 this.1).2
      simp [occurs, this]
  | cons c cs ih =>
    rw [occurs, Bool.or_eq_true, List.isPrefixOf_iff_prefix, ih]
    constructor
    · rintro (⟨after, h⟩ | ⟨before, after, rfl⟩)
      · exact ⟨[], after, by simpa using h.symm⟩
      · exact ⟨c :: before, after, by simp⟩
    · rintro ⟨before, after, h⟩
      cases before with
      | nil => exact Or.inl ⟨after, by simpa using h.symm⟩
      | cons b before =>
        simp only [List.cons_append, List.cons.injEq] at h
        exact Or.inr ⟨before, after, by simpa using h.2⟩

end UiScript.Text
