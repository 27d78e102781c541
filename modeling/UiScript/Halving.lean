/-
Looking for an entry in a list in ascending order by halving: at each step the
half is kept that can hold it, until there is one entry left. An entry that is
found is told by its place, and one that is not by the place at which it would
have to be put; in a list that is not in order, either may be wrong.

# Main statements

* `lt_getElem_iff` — in a list in order, the entries up to some place are not
  greater, and those from there on are.
* `placeFrom_eq` — halving comes to the last entry that is not greater.
* `search_spec` — what is found is there, and what is not found is not.
-/

namespace UiScript.Halving

variable {α : Type} [LT α] [DecidableLT α]

-- ================================================================== search

/-- The place at which `x` has to be if it is among the `size` entries from
`base` on, after as many steps as there are at most. -/
def placeFrom (entries : List α) (x : α) : (steps base size : Nat) → Nat
  | 0, base, _ => base
  | steps + 1, base, size =>
    if 1 < size then
      let half := size / 2
      let mid := base + half
      if entries[mid]?.any fun entry => x < entry then placeFrom entries x steps base (size - half)
      else placeFrom entries x steps mid (size - half)
    else base

/-- The place of `x` in a list, or else the place at which it would have to be
put. -/
def search (entries : List α) (x : α) : Except Nat Nat :=
  let size := entries.length
  let place := placeFrom entries x (size.log2 + 1) 0 size
  match entries[place]? with
  | none => .error place
  | some entry =>
    if entry < x then .error (place + 1) else if x < entry then .error place else .ok place

-- ==================================================================== laws

/-- How many entries are not greater than `x`. -/
def reach (entries : List α) (x : α) : Nat := entries.countP fun entry => !decide (x < entry)

variable [LE α] [Std.IsLinearOrder α] [Std.LawfulOrderLT α] {entries : List α} {x : α}

/-- In a list in ascending order, the entries that are not greater stand in
front of the others. The number of entries that are not greater is all that a
search in such a list has to find. -/
theorem lt_getElem_iff (hsorted : entries.Pairwise (· < ·)) {i : Nat} (hi : i < entries.length) :
    x < entries[i] ↔ reach entries x ≤ i := by
  induction entries generalizing i with
  | nil => cases hi
  | cons first rest ih =>
    obtain ⟨hfirst, hrest⟩ := List.pairwise_cons.1 hsorted
    by_cases hx : x < first
    · -- all entries are greater
      have hall : reach (first :: rest) x = 0 := by
        refine List.countP_eq_zero.2 fun entry hentry => ?_
        rcases List.mem_cons.1 hentry with rfl | hentry
        · simp [hx]
        · simp [Std.lt_trans hx (hfirst entry hentry)]
      rw [hall]
      refine iff_of_true ?_ (Nat.zero_le i)
      rcases List.mem_cons.1 (List.getElem_mem hi) with h | h
      · rwa [h]
      · exact Std.lt_trans hx (hfirst _ h)
    · have hcount : reach (first :: rest) x = reach rest x + 1 :=
        List.countP_cons_of_pos (by simp [hx])
      cases i with
      | zero => simp [hcount, hx]
      | succ i =>
        rw [hcount, List.getElem_cons_succ, ih hrest (Nat.lt_of_succ_lt_succ hi)]
        exact Nat.succ_le_succ_iff.symm

/-- Halving comes to the last entry that is not greater, or to the first one
of all: the half that is left out at a step does not hold it, and there are
steps enough to be left with one entry. -/
theorem placeFrom_eq (hsorted : entries.Pairwise (· < ·)) {steps base size : Nat}
    (hsteps : size ≤ Nat.pow 2 steps) (hlow : base ≤ reach entries x - 1)
    (hhigh : reach entries x ≤ base + size) (hbound : base + size ≤ entries.length) :
    placeFrom entries x steps base size = reach entries x - 1 := by
  induction steps generalizing base size with
  | zero =>
    change size ≤ 1 at hsteps
    show base = _
    omega
  | succ steps ih =>
    change size ≤ Nat.pow 2 steps * 2 at hsteps
    unfold placeFrom
    split
    · next hmany =>
      have hmid : base + size / 2 < entries.length := by omega
      have hentry : (entries[base + size / 2]?.any fun entry => decide (x < entry)) = true
          ↔ reach entries x ≤ base + size / 2 := by
        rw [List.getElem?_eq_getElem hmid, Option.any_some, decide_eq_true_iff,
          lt_getElem_iff hsorted hmid]
      dsimp only
      split
      · next hbefore =>
        have := hentry.1 hbefore
        exact ih (by omega) hlow (by omega) (by omega)
      · next hbehind =>
        have := mt hentry.2 hbehind
        exact ih (by omega) (by omega) (by omega) (by omega)
    · omega

/-- An entry is the last one that is not greater than it. -/
theorem exists_of_mem (hsorted : entries.Pairwise (· < ·)) (hx : x ∈ entries) :
    ∃ i, reach entries x = i + 1 ∧ entries[i]? = some x := by
  obtain ⟨i, hi, rfl⟩ := List.getElem_of_mem hx
  have hin : ¬ reach entries entries[i] ≤ i := mt (lt_getElem_iff hsorted hi).2 Std.lt_irrefl
  have hlength : reach entries entries[i] ≤ entries.length := List.countP_le_length
  refine ⟨i, ?_, List.getElem?_eq_getElem hi⟩
  rcases Nat.lt_or_ge (i + 1) (reach entries entries[i]) with hlater | hlast
  · -- the next entry would not be greater
    have hnext : i + 1 < entries.length := by omega
    have hless := List.pairwise_iff_getElem.1 hsorted i (i + 1) hi hnext (Nat.lt_succ_self i)
    exact absurd ((lt_getElem_iff hsorted hnext).1 hless) (by omega)
  · omega

/-- What is found is there, and what is not found is not; it would have to be
put behind the entries that are not greater. -/
theorem search_spec (hsorted : entries.Pairwise (· < ·)) :
    (∃ i, search entries x = .ok i ∧ entries[i]? = some x ∧ reach entries x = i + 1)
      ∨ search entries x = .error (reach entries x) ∧ x ∉ entries := by
  have hsteps : entries.length ≤ Nat.pow 2 (entries.length.log2 + 1) :=
    Nat.le_of_lt Nat.lt_log2_self
  have hreach : reach entries x ≤ entries.length := List.countP_le_length
  have hplace : placeFrom entries x (entries.length.log2 + 1) 0 entries.length
      = reach entries x - 1 :=
    placeFrom_eq hsorted hsteps (Nat.zero_le _) (by omega) (by omega)
  unfold search
  dsimp only
  rw [hplace]
  by_cases hx : x ∈ entries
  · obtain ⟨i, hi, hentry⟩ := exists_of_mem hsorted hx
    refine .inl ⟨i, ?_, hentry, hi⟩
    rw [hi, Nat.add_sub_cancel, hentry]
    dsimp only
    rw [if_neg Std.lt_irrefl, if_neg Std.lt_irrefl]
  · refine .inr ⟨?_, hx⟩
    split
    · next hnone =>
      have := List.getElem?_eq_none_iff.1 hnone
      exact congrArg Except.error (by omega)
    · next entry hsome =>
      obtain ⟨hi, rfl⟩ := List.getElem?_eq_some_iff.1 hsome
      have hless := lt_getElem_iff (x := x) hsorted hi
      split
      · next hbefore =>
        have := mt hless.2 fun hbehind => Std.lt_irrefl (Std.lt_trans hbefore hbehind)
        exact congrArg Except.error (by omega)
      split
      · next hbehind =>
        have := hless.1 hbehind
        exact congrArg Except.error (by omega)
      · next hbefore hbehind =>
        have heq := Std.le_antisymm (Std.not_lt.1 hbehind) (Std.not_lt.1 hbefore)
        exact absurd (heq ▸ List.getElem_mem hi) hx

end UiScript.Halving
