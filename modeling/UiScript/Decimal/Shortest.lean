/-
The shortest decimal that reads back as a given double. A finite double is
`m · 2 ^ q`; the reals that round to it are an interval around it, with its
ends when `m` is even. For one digit, two digits and so on, the two
neighbours of the value on that decimal grid are tried against the
interval; the first grid with a hit wins, the nearer of two hits is taken,
and when both are equally near the caller's `Tie` decides.
-/

namespace UiScript

/-- The decimal `coefficient · 10 ^ exponent`. -/
structure Decimal where
  coefficient : Nat
  exponent : Int
deriving DecidableEq, Inhabited

namespace Decimal

/-- What happens to a value halfway between two decimals. -/
inductive Tie where
  /-- The larger one is taken. -/
  | up
  /-- The one with the even last digit is taken. -/
  | toEven
deriving DecidableEq

/-- The positive binary number `significand · 2 ^ exponent`. -/
structure Binary where
  significand : Nat
  exponent : Int
  /-- The next smaller number is only half as far away as the next larger one. -/
  halfGapBelow : Bool
deriving DecidableEq

namespace Binary

-- ============================================ the value on a decimal grid

/-- `k` quarters of the last place of `x`, as the numerator of a fraction over
`denominator`. -/
def numerator (x : Binary) (grid : Int) (k : Nat) : Nat :=
  k * Nat.pow 2 (x.exponent - 2).toNat * Nat.pow 10 (-grid).toNat

/-- The denominator of the fractions on the grid of multiples of `10 ^ grid`. -/
def denominator (x : Binary) (grid : Int) : Nat :=
  Nat.pow 2 (2 - x.exponent).toNat * Nat.pow 10 grid.toNat

/-- The larger grid point that does not exceed `x`. -/
def floor (x : Binary) (grid : Int) : Nat :=
  x.numerator grid (4 * x.significand) / x.denominator grid

/-- Whether `c · 10 ^ grid` rounds to `x`. -/
def readsBack (x : Binary) (grid : Int) (c : Nat) : Bool :=
  let low := x.numerator grid (4 * x.significand - if x.halfGapBelow then 1 else 2)
  let high := x.numerator grid (4 * x.significand + 2)
  let point := c * x.denominator grid
  if x.significand % 2 = 0 then low ≤ point && point ≤ high else low < point && point < high

-- ================================================ the leading decimal place

/-- Whether `10 ^ e` is at most `x`. -/
def reaches (x : Binary) (e : Int) : Bool :=
  x.denominator e ≤ x.numerator e (4 * x.significand)

/-- The place of the leading decimal digit: the largest `e` with `10 ^ e ≤ x`. -/
def leadingPlace (x : Binary) : Int :=
  let guess := ((Nat.log2 x.significand + x.exponent) * 1233) / 4096
  if !x.reaches guess then guess - 1
  else if x.reaches (guess + 1) then guess + 1
  else guess

-- ======================================================== the shortest hit

/-- The better neighbour of `x` on a grid among those that read back. -/
def hit? (x : Binary) (tie : Tie) (grid : Int) : Option Nat :=
  let low := x.floor grid
  let below := x.numerator grid (4 * x.significand) - low * x.denominator grid
  let above := x.denominator grid - below
  match x.readsBack grid low, x.readsBack grid (low + 1) with
  | false, false => none
  | true, false => some low
  | false, true => some (low + 1)
  | true, true =>
    if below < above then some low
    else if above < below then some (low + 1)
    else match tie with
      | .up => some (low + 1)
      | .toEven => some (if low % 2 = 0 then low else low + 1)

end Binary

/-- Trailing zeros of the coefficient move into the exponent; `fuel` bounds
their number. -/
def stripZeros (fuel : Nat) (d : Decimal) : Decimal :=
  match fuel with
  | 0 => d
  | fuel + 1 =>
    if d.coefficient ≠ 0 ∧ d.coefficient % 10 = 0 then
      stripZeros fuel ⟨d.coefficient / 10, d.exponent + 1⟩
    else d

/-- The shortest decimal that reads back as `x`; seventeen digits are always
enough. -/
def shortest (tie : Tie) (x : Binary) : Decimal :=
  let place := x.leadingPlace
  let found := (List.range 17).findSome? fun (n : Nat) =>
    (x.hit? tie (place - n)).map fun c => (⟨c, place - n⟩ : Decimal)
  stripZeros 18 (found.getD ⟨x.floor (place - 16), place - 16⟩)

end Decimal

end UiScript
