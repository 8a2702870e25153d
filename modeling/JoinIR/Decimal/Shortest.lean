/-
# JoinIR.Decimal.Shortest — the fewest digits that read back

A binary number `m * 2 ^ q` is the nearest one of its format to every real number in an interval
around it, the **rounding interval**. Among the decimals `c * 10 ^ k` in that interval the
shortest one, and of several the closest one, is what a reader wants to see: it reads back to the
same number and has no digit too many.

The search goes over the decimal grids `10 ^ k` from coarse to fine, one significant digit after
the other. On each it looks at the two grid points next to the number, in exact integer
arithmetic: if any grid point lies in the interval, one of these two does. Should no grid of the
search have a hit, the exact decimal expansion of the number is the answer, so the answer lies in
the rounding interval without any bound having to be proved.

Not decided here: how a decimal is laid out as text.
-/

namespace JoinIR

/-- The decimal number `coefficient * 10 ^ exponent`. -/
structure Decimal where
  coefficient : Nat
  exponent : Int
  deriving DecidableEq, Repr

namespace Decimal

/-! ## The interval to hit -/

/-- The numbers that round to `significand * 2 ^ exponent`. Bounds count quarters of the unit
`2 ^ exponent`, because the lower half-gap of a power of two is a quarter. -/
structure Target where
  significand : Nat
  exponent : Int
  /-- Whether the gap below is half as wide as the gap above. -/
  narrowBelow : Bool

namespace Target

/-- The number itself, in quarters of the unit. -/
def middle (t : Target) : Nat := 4 * t.significand

/-- The lower end of the interval, in quarters of the unit. -/
def low (t : Target) : Nat := if t.narrowBelow then t.middle - 1 else t.middle - 2

/-- The upper end of the interval, in quarters of the unit. -/
def high (t : Target) : Nat := t.middle + 2

/-- Whether the ends belong to the interval: a tie is rounded to the even significand. -/
def closed (t : Target) : Bool := t.significand % 2 == 0

/-- The factor that takes quarters of the unit to the common measure with the grid `10 ^ k`. -/
def quarter (t : Target) (k : Int) : Nat :=
  Nat.pow 2 (t.exponent - 2).toNat * Nat.pow 10 (-k).toNat

/-- The factor that takes steps of the grid `10 ^ k` to the common measure. -/
def step (t : Target) (k : Int) : Nat :=
  Nat.pow 2 (2 - t.exponent).toNat * Nat.pow 10 k.toNat

/-- Whether the grid point `c * 10 ^ k` lies in the interval. -/
def contains (t : Target) (k : Int) (c : Nat) : Bool :=
  let x := c * t.step k
  let l := t.low * t.quarter k
  let h := t.high * t.quarter k
  if t.closed then decide (l ≤ x ∧ x ≤ h) else decide (l < x ∧ x < h)

/-- The grid point next to the number that lies in the interval. If both do, the closer one is
taken, and of two equally close ones the upper. -/
def hit? (t : Target) (k : Int) : Option Nat :=
  let v := t.middle * t.quarter k
  let c := v / t.step k
  match t.contains k c, t.contains k (c + 1) with
  | true, true => if v - c * t.step k < (c + 1) * t.step k - v then some c else some (c + 1)
  | true, false => some c
  | false, true => some (c + 1)
  | false, false => none

/-! ## The search -/

/-- The number of decimal digits of a natural number. -/
def digitCount (n : Nat) : Nat := (Nat.toDigits 10 n).length

/-- The power of ten of the leading decimal digit. The number is first scaled by `10 ^ 324`, which
makes every positive number of the format at least one. -/
def leading (t : Target) : Int :=
  let scaled := t.middle * t.quarter (-324) / t.step (-324)
  (digitCount scaled : Int) - 325

/-- The first hit on the grids `10 ^ k`, `10 ^ (k - 1)`, …, if there is one on the next `n`. -/
def search (t : Target) (k : Int) : Nat → Option Decimal
  | 0 => none
  | n + 1 =>
    match t.hit? k with
    | some c => some ⟨c, k⟩
    | none => t.search (k - 1) n

/-- The number with all its decimal digits. -/
def exact (t : Target) : Decimal :=
  if t.exponent < 0 then ⟨t.significand * Nat.pow 5 (-t.exponent).toNat, t.exponent⟩
  else ⟨t.significand * Nat.pow 2 t.exponent.toNat, 0⟩

/-- The shortest decimal in the interval, of at most seventeen digits. -/
def shortest (t : Target) : Decimal := (t.search t.leading 17).getD t.exact

end Target

end Decimal

end JoinIR
