/-
# JoinIR.Binary64.Text — how a constant is written

A finite constant is written with the fewest digits that read back to it, positionally from
`10 ^ -4` up to below `10 ^ 16` and scientifically outside. The sign of a zero is kept; a NaN has
neither sign nor payload in its text.
-/
import JoinIR.Binary64
import JoinIR.Decimal.Layout

namespace JoinIR.Binary64

/-- The real numbers that round to a finite constant. -/
def target (x : Binary64) : Decimal.Target := ⟨x.significand, x.exponent, x.atBinade⟩

/-- Positional notation from a ten-thousandth up to sixteen digits before the point. -/
def layout : Decimal.Layout := ⟨-4, 15⟩

/-- The text of the magnitude of a constant that is not a NaN. -/
def magnitudeText (x : Binary64) : String :=
  if x.isInfinite then "inf"
  else if x.isZero then "0.0"
  else x.target.shortest.text layout

/-- The text of a constant, such as `0.1`, `-0.0`, `1e16`, `inf` or `NaN`. -/
def text (x : Binary64) : String :=
  if x.isNaN then "NaN"
  else if x.negative then "-" ++ x.magnitudeText
  else x.magnitudeText

end JoinIR.Binary64
