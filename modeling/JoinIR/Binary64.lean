/-
# JoinIR.Binary64 — double-precision constants

A floating-point constant is its 64 bits. They are read as a sign, an exponent field and a
fraction, and from those as an exact dyadic number `significand * 2 ^ exponent`; no machine
arithmetic is involved.

Constants compare as numbers: a NaN equals nothing, itself included, and the two zeros are equal.
So `==` is not reflexive here, and bits that differ can be equal (`beq_iff`).
-/

namespace JoinIR

/-- The bits of a double-precision number, sign first. -/
structure Binary64 where
  bits : UInt64
  deriving DecidableEq, Repr

namespace Binary64

/-! ## The fields -/

/-- Whether the sign bit is set. -/
def negative (x : Binary64) : Bool := decide (Nat.pow 2 63 ≤ x.bits.toNat)

/-- The eleven bits of the exponent. -/
def exponentField (x : Binary64) : Nat := x.bits.toNat / Nat.pow 2 52 % Nat.pow 2 11

/-- The fifty-two bits of the fraction. -/
def fraction (x : Binary64) : Nat := x.bits.toNat % Nat.pow 2 52

/-- Whether the bits are those of a NaN, of either sign and with any payload. -/
def isNaN (x : Binary64) : Bool := x.exponentField == 2047 && x.fraction != 0

/-- Whether the bits are those of an infinity of either sign. -/
def isInfinite (x : Binary64) : Bool := x.exponentField == 2047 && x.fraction == 0

/-- Whether the bits are those of one of the two zeros. -/
def isZero (x : Binary64) : Bool := x.exponentField == 0 && x.fraction == 0

/-! ## The magnitude -/

/-- The integer significand of a finite number; normal numbers have a hidden leading bit. -/
def significand (x : Binary64) : Nat :=
  if x.exponentField = 0 then x.fraction else Nat.pow 2 52 + x.fraction

/-- The power of two that scales the significand. -/
def exponent (x : Binary64) : Int :=
  if x.exponentField = 0 then -1074 else (x.exponentField : Int) - 1075

/-- Whether the next smaller magnitude is only half as far away as the next larger one: so it is
at the powers of two above the subnormal numbers. -/
def atBinade (x : Binary64) : Bool := x.fraction == 0 && decide (1 < x.exponentField)

/-! ## Comparison as numbers -/

/-- Equality of numbers: false on a NaN, true between the zeros. -/
instance : BEq Binary64 :=
  ⟨fun x y => !x.isNaN && !y.isNaN && (x.bits == y.bits || x.isZero && y.isZero)⟩

theorem beq_iff {x y : Binary64} :
    (x == y) = true ↔
      x.isNaN = false ∧ y.isNaN = false ∧
        (x.bits = y.bits ∨ x.isZero = true ∧ y.isZero = true) := by
  change (!x.isNaN && !y.isNaN && (x.bits == y.bits || x.isZero && y.isZero)) = true ↔ _
  simp [and_assoc]

theorem beq_self (x : Binary64) : (x == x) = !x.isNaN := by
  change (!x.isNaN && !x.isNaN && (x.bits == x.bits || x.isZero && x.isZero)) = _
  simp

end Binary64

end JoinIR
