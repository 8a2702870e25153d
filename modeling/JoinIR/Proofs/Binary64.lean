/-
# JoinIR.Proofs.Binary64 — constants and their texts

The text of a constant tells its bits, except that all NaNs are written alike
(`Binary64.text_eq_iff`): the sign is in the first character, and the magnitude is told by the
number that the rest spells.

For the magnitude the argument is geometric. Put the finite magnitudes in order, which is the
order of their bits without the sign. Each has a rounding interval, and the intervals tile the
line: the upper end of one is the lower end of the next (`low_succ`), and of two neighbours only
the one with the even significand owns the common end. So no number lies in the intervals of two
magnitudes (`eq_of_holds`), and the shortest decimal lies in the interval of the constant.
-/
import JoinIR.Proofs.Decimal
import JoinIR.Binary64.Text

namespace JoinIR.Binary64

open Decimal (Target)

/-! ## The line of magnitudes -/

/-- The bits without the sign. -/
def magnitude (x : Binary64) : Nat := x.bits.toNat % 2 ^ 63

/-- The power of two that scales the significand, counted from the smallest one. -/
def shift (n : Nat) : Nat := n / 2 ^ 52 - 1

/-- The significand of the magnitude with the given bits. -/
def significandOf (n : Nat) : Nat := if n / 2 ^ 52 = 0 then n % 2 ^ 52 else 2 ^ 52 + n % 2 ^ 52

/-- The rounding interval of the magnitude with the given bits. -/
def targetOf (n : Nat) : Target where
  significand := significandOf n
  exponent := (shift n : Int) - 1074
  narrowBelow := n % 2 ^ 52 == 0 && decide (1 < n / 2 ^ 52)

theorem exponentField_eq (x : Binary64) : x.exponentField = x.magnitude / 2 ^ 52 := by
  rw [exponentField, magnitude, Nat.pow_eq, Nat.pow_eq]
  omega

theorem fraction_eq (x : Binary64) : x.fraction = x.magnitude % 2 ^ 52 := by
  rw [fraction, magnitude, Nat.pow_eq]
  omega

theorem target_eq (x : Binary64) : x.target = targetOf x.magnitude := by
  have hexponent : x.exponent = (shift x.magnitude : Int) - 1074 := by
    rw [exponent, exponentField_eq, shift]
    split <;> omega
  rw [target, targetOf, hexponent, significand, significandOf, atBinade, exponentField_eq,
    fraction_eq, Nat.pow_eq]

theorem high_targetOf (n : Nat) : (targetOf n).high = 4 * significandOf n + 2 := rfl

theorem low_targetOf (n : Nat) :
    (targetOf n).low
      = if n % 2 ^ 52 = 0 ∧ 1 < n / 2 ^ 52 then 4 * significandOf n - 1
        else 4 * significandOf n - 2 := by
  simp [targetOf, Target.low, Target.middle]

/-- The upper end of the interval, in quarters of the smallest unit. -/
def edge (n : Nat) : Nat := (targetOf n).high * 2 ^ shift n

/-- The lower end of an interval is the upper end of the one before. -/
theorem low_succ (n : Nat) : (targetOf (n + 1)).low * 2 ^ shift (n + 1) = edge n := by
  rw [edge, low_targetOf, high_targetOf]
  -- the fraction overflows into the exponent, or the unit is the same on both sides
  by_cases hcarry : n % 2 ^ 52 + 1 = 2 ^ 52
  · have hquotient : (n + 1) / 2 ^ 52 = n / 2 ^ 52 + 1 := by omega
    have hrest : (n + 1) % 2 ^ 52 = 0 := by omega
    have hnext : significandOf (n + 1) = 2 ^ 52 := by
      rw [significandOf, hquotient, hrest, if_neg (by omega), Nat.add_zero]
    rw [shift, shift, hquotient, hrest, hnext]
    by_cases hsubnormal : n / 2 ^ 52 = 0
    · -- the least normal number: the unit stays what it is
      have hlast : significandOf n = 2 ^ 52 - 1 := by
        rw [significandOf, if_pos hsubnormal]
        omega
      rw [if_neg (by omega), hlast, hsubnormal]
      norm_num
    · -- a power of two: the unit doubles, and the half-gap below is that of the old unit
      have hlast : significandOf n = 2 ^ 53 - 1 := by
        rw [significandOf, if_neg hsubnormal]
        omega
      obtain ⟨q, hq⟩ : ∃ q, n / 2 ^ 52 = q + 1 := ⟨n / 2 ^ 52 - 1, by omega⟩
      rw [if_pos (by omega), hlast, hq, Nat.add_sub_cancel, Nat.add_sub_cancel, pow_succ]
      ring
  · have hquotient : (n + 1) / 2 ^ 52 = n / 2 ^ 52 := by omega
    have hrest : (n + 1) % 2 ^ 52 = n % 2 ^ 52 + 1 := by omega
    have hnext : significandOf (n + 1) = significandOf n + 1 := by
      rw [significandOf, significandOf, hquotient, hrest]
      split <;> omega
    rw [shift, shift, hquotient, hrest, hnext, if_neg (by omega)]
    congr 1

theorem edge_lt_succ (n : Nat) : edge n < edge (n + 1) := by
  rw [← low_succ, edge]
  refine Nat.mul_lt_mul_of_pos_right ?_ (by positivity)
  rw [Target.low, Target.high]
  split <;> omega

theorem edge_strictMono : StrictMono edge := strictMono_nat_of_lt_succ edge_lt_succ

/-- Odd magnitudes have odd significands, and their intervals are open. -/
theorem closed_targetOf (n : Nat) : (targetOf n).closed = decide (n % 2 = 0) := by
  have hparity : significandOf n % 2 = n % 2 := by
    unfold significandOf
    split <;> omega
  rw [Target.closed, show (targetOf n).significand = significandOf n from rfl, hparity,
    ← Bool.beq_eq_decide_eq]

/-! ## Intervals do not meet -/

/-- A bound of the interval, counted in quarters of the smallest unit. -/
theorem bound_mul (n a : Nat) :
    (a : ℚ) * 2 ^ ((targetOf n).exponent - 2) * 2 ^ 1076 = (a * 2 ^ shift n : Nat) := by
  have hexponent : (targetOf n).exponent - 2 + (1076 : Nat) = (shift n : Int) := by
    show (shift n : Int) - 1074 - 2 + 1076 = shift n
    ring
  push_cast
  rw [mul_assoc, ← zpow_natCast, ← zpow_natCast, ← zpow_add₀ (by norm_num), hexponent]

section Bounds

variable {n : Nat} {x : ℚ} (h : (targetOf n).Holds x)
include h

theorem le_edge : x * 2 ^ 1076 ≤ edge n := by
  rw [edge, ← bound_mul]
  exact mul_le_mul_of_nonneg_right h.bounds.2 (by positivity)

theorem lt_edge (hodd : n % 2 = 1) : x * 2 ^ 1076 < edge n := by
  have hopen : (targetOf n).closed = false := by simp [closed_targetOf, hodd]
  rw [edge, ← bound_mul]
  exact mul_lt_mul_of_pos_right (h.strict_bounds hopen).2 (by positivity)

theorem edge_le {m : Nat} (hm : n = m + 1) : edge m ≤ x * 2 ^ 1076 := by
  subst hm
  rw [← low_succ, ← bound_mul]
  exact mul_le_mul_of_nonneg_right h.bounds.1 (by positivity)

theorem edge_lt {m : Nat} (hm : n = m + 1) (hodd : n % 2 = 1) : edge m < x * 2 ^ 1076 := by
  have hopen : (targetOf n).closed = false := by simp [closed_targetOf, hodd]
  subst hm
  rw [← low_succ, ← bound_mul]
  exact mul_lt_mul_of_pos_right (h.strict_bounds hopen).1 (by positivity)

end Bounds

theorem not_lt_of_holds {m n : Nat} {x : ℚ} (hm : (targetOf m).Holds x)
    (hn : (targetOf n).Holds x) : ¬ m < n := by
  intro hlt
  obtain ⟨k, rfl⟩ : ∃ k, n = k + 1 := ⟨n - 1, by omega⟩
  have hupper := le_edge hm
  have hlower := edge_le hn rfl
  have hedges : edge k ≤ edge m := by exact_mod_cast hlower.trans hupper
  have hk : k ≤ m := edge_strictMono.le_iff_le.mp hedges
  obtain rfl : k = m := by omega
  -- neighbours share the edge only, and the odd one of them does not own it
  rcases Nat.mod_two_eq_zero_or_one k with heven | hodd
  · exact absurd hupper (not_le.mpr (edge_lt hn rfl (by omega)))
  · exact absurd hlower (not_le.mpr (lt_edge hm hodd))

/-- No number lies in the intervals of two magnitudes. -/
theorem eq_of_holds {m n : Nat} {x : ℚ} (hm : (targetOf m).Holds x) (hn : (targetOf n).Holds x) :
    m = n :=
  Nat.le_antisymm (Nat.le_of_not_lt (not_lt_of_holds hn hm))
    (Nat.le_of_not_lt (not_lt_of_holds hm hn))

/-! ## The text of a magnitude -/

variable {x y : Binary64}

/-- The decimal that is written for a finite constant. -/
def decimal (x : Binary64) : Decimal := if x.isZero then ⟨0, 0⟩ else x.target.shortest

theorem magnitudeText_eq (hfinite : x.isInfinite = false) :
    x.magnitudeText = x.decimal.text layout := by
  rw [magnitudeText, decimal, hfinite, if_neg (by decide)]
  split
  · decide
  · rfl

theorem magnitude_eq_zero (h : x.isZero = true) : x.magnitude = 0 := by
  rw [isZero, exponentField_eq, fraction_eq, Bool.and_eq_true, beq_iff_eq, beq_iff_eq] at h
  omega

theorem magnitude_of_isInfinite (h : x.isInfinite = true) : x.magnitude = 2047 * 2 ^ 52 := by
  rw [isInfinite, exponentField_eq, fraction_eq, Bool.and_eq_true, beq_iff_eq, beq_iff_eq] at h
  omega

/-- What is written rounds to the constant. -/
theorem holds_decimal (x : Binary64) : (targetOf x.magnitude).Holds x.decimal.value := by
  unfold decimal
  split
  next hzero =>
    rw [magnitude_eq_zero hzero]
    have hvalue : (⟨0, 0⟩ : Decimal).value = 0 := by simp [Decimal.value]
    have hexact : (targetOf 0).exact.value = 0 := by
      rw [Target.value_exact]
      simp [targetOf, significandOf]
    rw [hvalue, ← hexact]
    exact Target.holds_exact
  next =>
    rw [target_eq]
    exact Target.holds_shortest _

/-- A number is not written like an infinity. -/
theorem text_ne_inf (d : Decimal) : d.text layout ≠ "inf" := by
  intro h
  have hmem : 'i' ∈ (d.text layout).toList := by
    rw [h]
    decide
  have hno : ¬ ('i'.isDigit = true ∨ 'i' = '.' ∨ 'i' = 'e' ∨ 'i' = '-') := by decide
  exact hno (Decimal.of_mem_text hmem)

theorem magnitudeText_of_isInfinite (h : x.isInfinite = true) : x.magnitudeText = "inf" := by
  rw [magnitudeText, if_pos h]

theorem magnitude_eq_of_text_eq (h : x.magnitudeText = y.magnitudeText) :
    x.magnitude = y.magnitude := by
  cases hx : x.isInfinite with
  | true =>
    cases hy : y.isInfinite with
    | true => rw [magnitude_of_isInfinite hx, magnitude_of_isInfinite hy]
    | false =>
      rw [magnitudeText_of_isInfinite hx, magnitudeText_eq hy] at h
      exact absurd h.symm (text_ne_inf _)
  | false =>
    cases hy : y.isInfinite with
    | true =>
      rw [magnitudeText_of_isInfinite hy, magnitudeText_eq hx] at h
      exact absurd h (text_ne_inf _)
    | false =>
      rw [magnitudeText_eq hx, magnitudeText_eq hy] at h
      -- one decimal lies in the intervals of both
      have hvalue := Decimal.value_eq_of_text_eq h
      have hmeet := holds_decimal y
      rw [← hvalue] at hmeet
      exact eq_of_holds (holds_decimal x) hmeet

/-! ## The text of a constant -/

/-- The characters that occur in the text of a magnitude. -/
def Numeral (c : Char) : Prop := c.isDigit = true ∨ c ∈ ['.', 'e', '-', 'i', 'n', 'f']

instance : DecidablePred Numeral :=
  fun c => inferInstanceAs (Decidable (c.isDigit = true ∨ c ∈ ['.', 'e', '-', 'i', 'n', 'f']))

theorem numeral_of_mem_magnitudeText {c : Char} (hc : c ∈ x.magnitudeText.toList) :
    Numeral c := by
  cases hx : x.isInfinite with
  | true =>
    rw [magnitudeText_of_isInfinite hx] at hc
    right
    revert hc
    simp
    tauto
  | false =>
    rw [magnitudeText_eq hx] at hc
    rcases Decimal.of_mem_text hc with h | rfl | rfl | rfl
    · exact .inl h
    all_goals exact .inr (by decide)

theorem exists_head_magnitudeText (x : Binary64) :
    ∃ c cs, x.magnitudeText.toList = c :: cs ∧ c ≠ '-' := by
  cases hx : x.isInfinite with
  | true =>
    rw [magnitudeText_of_isInfinite hx]
    exact ⟨'i', ['n', 'f'], rfl, by decide⟩
  | false =>
    rw [magnitudeText_eq hx]
    exact Decimal.exists_head_text

theorem text_of_isNaN (h : x.isNaN = true) : x.text = "NaN" := by
  rw [text, if_pos h]

theorem toList_text (h : x.isNaN = false) :
    x.text.toList = (if x.negative then ['-'] else []) ++ x.magnitudeText.toList := by
  rw [text, h, if_neg (by decide)]
  split <;> simp

/-- The sign and the magnitude make up the bits. -/
theorem ext_magnitude (hsign : x.negative = y.negative) (hmagnitude : x.magnitude = y.magnitude) :
    x = y := by
  obtain ⟨a⟩ := x
  obtain ⟨b⟩ := y
  have ha := a.toNat_lt
  have hb := b.toNat_lt
  simp only [negative, magnitude, Nat.pow_eq, decide_eq_decide] at hsign hmagnitude
  have hbits : a.toNat = b.toNat := by omega
  rw [UInt64.toNat_inj.mp hbits]

theorem eq_of_text_eq (hx : x.isNaN = false) (hy : y.isNaN = false) (h : x.text = y.text) :
    x = y := by
  obtain ⟨c, cs, hc, hcsign⟩ := exists_head_magnitudeText x
  obtain ⟨d, ds, hd, hdsign⟩ := exists_head_magnitudeText y
  have hlist := congrArg String.toList h
  rw [toList_text hx, toList_text hy] at hlist
  -- the text of a magnitude does not open with a sign
  have hsign : x.negative = y.negative := by
    cases hnx : x.negative <;> cases hny : y.negative
    · rfl
    · simp only [hnx, hny, hc, if_true, List.singleton_append] at hlist
      exact absurd (List.cons.inj hlist).1 hcsign
    · simp only [hnx, hny, hd, if_true, List.singleton_append] at hlist
      exact absurd (List.cons.inj hlist).1.symm hdsign
    · rfl
  rw [hsign, List.append_cancel_left_eq, String.toList_inj] at hlist
  exact ext_magnitude hsign (magnitude_eq_of_text_eq hlist)

theorem text_ne_nan (h : x.isNaN = false) : x.text ≠ "NaN" := by
  intro heq
  have hmem : 'N' ∈ x.text.toList := by
    rw [heq]
    decide
  rw [toList_text h, List.mem_append] at hmem
  rcases hmem with hmem | hmem
  · split at hmem <;> simp at hmem
  · have hno : ¬ Numeral 'N' := by decide
    exact hno (numeral_of_mem_magnitudeText hmem)

/-- The NaN that stands for all of them. -/
def nan : Binary64 := ⟨0x7ff8000000000000⟩

theorem isNaN_nan : nan.isNaN = true := by decide

/-- A constant as its text shows it: all NaNs look alike. -/
def shown (x : Binary64) : Binary64 := if x.isNaN then nan else x

theorem shown_of_isNaN (h : x.isNaN = true) : x.shown = nan := if_pos h

theorem shown_of_not_isNaN (h : x.isNaN = false) : x.shown = x := by
  rw [shown, h, if_neg (by decide)]

theorem isNaN_shown (x : Binary64) : x.shown.isNaN = x.isNaN := by
  cases hx : x.isNaN with
  | true => rw [shown_of_isNaN hx, isNaN_nan]
  | false => rw [shown_of_not_isNaN hx, hx]

theorem shown_eq_iff : x.shown = y.shown ↔ x = y ∨ x.isNaN = true ∧ y.isNaN = true := by
  constructor
  · intro h
    have hnan := congrArg isNaN h
    rw [isNaN_shown, isNaN_shown] at hnan
    cases hx : x.isNaN with
    | true => exact .inr ⟨rfl, hnan ▸ hx⟩
    | false =>
      rw [hx] at hnan
      rw [shown_of_not_isNaN hx, shown_of_not_isNaN hnan.symm] at h
      exact .inl h
  · rintro (rfl | ⟨hx, hy⟩)
    · rfl
    · rw [shown_of_isNaN hx, shown_of_isNaN hy]

/-- The text of a constant tells it up to what is shown of it. -/
theorem text_eq_iff : x.text = y.text ↔ x.shown = y.shown := by
  rw [shown_eq_iff]
  constructor
  · intro h
    cases hx : x.isNaN <;> cases hy : y.isNaN
    · exact .inl (eq_of_text_eq hx hy h)
    · rw [text_of_isNaN hy] at h
      exact absurd h (text_ne_nan hx)
    · rw [text_of_isNaN hx] at h
      exact absurd h.symm (text_ne_nan hy)
    · exact .inr ⟨rfl, rfl⟩
  · rintro (rfl | ⟨hx, hy⟩)
    · rfl
    · rw [text_of_isNaN hx, text_of_isNaN hy]

@[simp] theorem text_shown (x : Binary64) : x.shown.text = x.text := by
  rw [text_eq_iff, shown_eq_iff]
  cases hx : x.isNaN with
  | true => exact .inr ⟨(isNaN_shown x).trans hx, rfl⟩
  | false => exact .inl (shown_of_not_isNaN hx)

open Listing (delimiters) in
theorem not_numeral_of_mem_delimiters {c : Char} (hc : c ∈ delimiters) : ¬ Numeral c := by
  simp only [delimiters, List.mem_cons, List.not_mem_nil, or_false] at hc
  rcases hc with rfl | rfl | rfl | rfl <;> decide

open Listing (IsWord delimiters) in
theorem isWord_text {cs : List Char} (hcs : cs ⊆ delimiters) (x : Binary64) :
    IsWord cs x.text := by
  cases hx : x.isNaN with
  | true =>
    rw [text_of_isNaN hx]
    exact IsWord.of_subset hcs (by decide)
  | false =>
    obtain ⟨c, ds, hc, -⟩ := exists_head_magnitudeText x
    constructor
    · rw [ne_eq, ← String.toList_inj, toList_text hx, hc]
      simp
    · intro d hd hmem
      rw [toList_text hx, List.mem_append] at hd
      rcases hd with hd | hd
      · split at hd <;> simp at hd
        subst hd
        exact absurd (hcs hmem) (by decide)
      · exact not_numeral_of_mem_delimiters (hcs hmem) (numeral_of_mem_magnitudeText hd)

end JoinIR.Binary64
