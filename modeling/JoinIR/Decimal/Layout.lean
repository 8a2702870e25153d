/-
# JoinIR.Decimal.Layout — a decimal as text

A decimal is written from its **significant digits**, which are the digits of the coefficient
without trailing zeros, and the power of ten of the leading one. Inside a range of powers the
notation is positional, with at least one digit after the point; outside it is scientific, with
the point after the leading digit, and without a point when that digit stands alone.
-/
import JoinIR.Decimal.Shortest

namespace JoinIR

namespace Decimal

/-- Where positional notation is used, by the power of ten of the leading digit. -/
structure Layout where
  lowest : Int
  highest : Int

/-- The digits of the coefficient without trailing zeros. -/
def significantDigits (d : Decimal) : List Char :=
  ((Nat.toDigits 10 d.coefficient).reverse.dropWhile (· == '0')).reverse

/-- The power of ten of the leading digit. -/
def leadingPower (d : Decimal) : Int :=
  d.exponent + (Nat.toDigits 10 d.coefficient).length - 1

/-- Positional notation of digits whose first one counts `10 ^ power`. -/
def positional (digits : List Char) (power : Int) : List Char :=
  if power < 0 then
    '0' :: '.' :: (List.replicate (-power - 1).toNat '0' ++ digits)
  else
    let whole := power.toNat + 1
    if digits.length ≤ whole then
      digits ++ List.replicate (whole - digits.length) '0' ++ ['.', '0']
    else
      digits.take whole ++ '.' :: digits.drop whole

/-- Scientific notation of digits whose first one counts `10 ^ power`. -/
def scientific (digits : List Char) (power : Int) : List Char :=
  (match digits with
    | d :: e :: rest => d :: '.' :: e :: rest
    | short => short) ++ 'e' :: (toString power).toList

/-- The text of a positive decimal. -/
def text (layout : Layout) (d : Decimal) : String :=
  let power := d.leadingPower
  if layout.lowest ≤ power ∧ power ≤ layout.highest then
    .ofList (positional d.significantDigits power)
  else
    .ofList (scientific d.significantDigits power)

end Decimal

end JoinIR
