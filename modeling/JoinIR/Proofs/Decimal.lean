/-
# JoinIR.Proofs.Decimal — what the text of a decimal says

A decimal stands for a rational number, and its text determines that number whichever notation
the layout picks (`Decimal.value_eq_of_text_eq`). The number is read off the text: the digits as
one natural number, divided by ten for every digit after the point, times the power of ten after
the letter `e` if there is one. Trailing zeros that the text leaves out or puts in make no
difference to it.

The shortest decimal of a target lies in the rounding interval (`Target.holds_shortest`), because
the search returns hits only and its fallback is the number itself.
-/
import JoinIR.Proofs.Words
import JoinIR.Decimal.Layout
import Mathlib.Algebra.Order.Field.Power
import Mathlib.Algebra.Order.Field.Rat
import Mathlib.Data.List.TakeWhile
import Mathlib.Tactic.FieldSimp
import Mathlib.Tactic.Positivity
import Mathlib.Tactic.Ring

namespace JoinIR.Decimal

/-- The rational number that a decimal stands for. -/
def value (d : Decimal) : ℚ := d.coefficient * 10 ^ d.exponent

/-! ## Digits -/

/-- The natural number that digits spell. -/
def spelled (digits : List Char) : Nat := Nat.ofDigitChars 10 digits 0

theorem spelled_append (l m : List Char) :
    spelled (l ++ m) = 10 ^ m.length * spelled l + spelled m := by
  rw [spelled, Nat.ofDigitChars_append, Nat.ofDigitChars_eq_ofDigitChars_zero]
  rfl

@[simp] theorem spelled_zeros (n : Nat) : spelled (List.replicate n '0') = 0 := by
  simp [spelled]

/-- The digits of the coefficient are the significant ones and some zeros. -/
theorem exists_zeros (d : Decimal) :
    ∃ z, Nat.toDigits 10 d.coefficient = d.significantDigits ++ List.replicate z '0' := by
  set digits := Nat.toDigits 10 d.coefficient with hdigits
  have hsplit := List.takeWhile_append_dropWhile (p := (· == '0')) (l := digits.reverse)
  have hzeros : ∀ c ∈ digits.reverse.takeWhile (· == '0'), c = '0' := by
    intro c hc
    simpa using List.mem_takeWhile_imp hc
  refine ⟨(digits.reverse.takeWhile (· == '0')).length, ?_⟩
  have hrev := congrArg List.reverse hsplit
  rw [List.reverse_append, List.reverse_reverse, List.eq_replicate_of_mem hzeros,
    List.reverse_replicate] at hrev
  rw [significantDigits, ← hdigits]
  simpa using hrev.symm

theorem isDigit_of_mem_significantDigits {d : Decimal} {c : Char}
    (hc : c ∈ d.significantDigits) : c.isDigit = true := by
  obtain ⟨z, hz⟩ := d.exists_zeros
  have hmem : c ∈ Nat.toDigits 10 d.coefficient := by
    rw [hz]
    exact List.mem_append_left _ hc
  exact isDigit_of_mem_digits hmem

/-- The value of a decimal in terms of its significant digits and the leading power. -/
theorem value_eq (d : Decimal) :
    d.value = spelled d.significantDigits
      * 10 ^ (d.leadingPower + 1 - d.significantDigits.length) := by
  obtain ⟨z, hz⟩ := d.exists_zeros
  have hcoefficient : d.coefficient = 10 ^ z * spelled d.significantDigits := by
    have hspelled : spelled (Nat.toDigits 10 d.coefficient) = d.coefficient :=
      Nat.ofDigitChars_ten_toDigits
    rw [hz, spelled_append] at hspelled
    simpa using hspelled.symm
  have hpower : d.leadingPower + 1 - d.significantDigits.length = d.exponent + z := by
    rw [leadingPower, hz, List.length_append, List.length_replicate]
    push_cast
    ring
  have hten : (10 : ℚ) ≠ 0 := by norm_num
  rw [hpower, zpow_add₀ hten, value]
  conv_lhs => rw [hcoefficient]
  push_cast
  rw [zpow_natCast]
  ring

/-! ## Reading a text -/

/-- The number that digits with at most one point among them spell. -/
def reading (cs : List Char) : ℚ :=
  spelled (cs.takeWhile (· != '.') ++ (cs.dropWhile (· != '.')).tail)
    / 10 ^ (cs.dropWhile (· != '.')).tail.length

theorem bne_point_of_mem {whole : List Char} (h : '.' ∉ whole) :
    ∀ c ∈ whole, (c != '.') = true := by
  intro c hc
  rw [bne_iff_ne]
  rintro rfl
  exact h hc

theorem reading_whole {whole : List Char} (h : '.' ∉ whole) : reading whole = spelled whole := by
  have hall := bne_point_of_mem h
  have htake : whole.takeWhile (· != '.') = whole := List.takeWhile_eq_self_iff.mpr hall
  have hdrop : whole.dropWhile (· != '.') = [] := List.dropWhile_eq_nil_iff.mpr hall
  simp [reading, htake, hdrop]

theorem reading_point {whole fraction : List Char} (h : '.' ∉ whole) :
    reading (whole ++ '.' :: fraction) = spelled (whole ++ fraction) / 10 ^ fraction.length := by
  have hall := bne_point_of_mem h
  simp [reading, List.takeWhile_append_of_pos hall, List.dropWhile_append_of_pos hall]

section Digits

variable {digits : List Char} (hdigits : ∀ c ∈ digits, c.isDigit = true)
include hdigits

theorem point_not_mem : '.' ∉ digits := fun h => absurd (hdigits _ h) (by decide)

/-- Positional notation reads as the digits at their power of ten. -/
theorem reading_positional (power : Int) :
    reading (positional digits power) = spelled digits * 10 ^ (power + 1 - digits.length) := by
  have hten : (10 : ℚ) ≠ 0 := by norm_num
  have hpoint := point_not_mem hdigits
  unfold positional
  split
  next hneg =>
    -- zeros between the point and the digits
    have hlength : ((-power - 1).toNat : Int) = -power - 1 := Int.toNat_of_nonneg (by omega)
    rw [← List.singleton_append, reading_point (by decide)]
    have hspelled : spelled (['0'] ++ (List.replicate (-power - 1).toNat '0' ++ digits))
        = spelled digits := by
      rw [← List.append_assoc, spelled_append, ← List.replicate_one, ← List.replicate_add,
        spelled_zeros, Nat.mul_zero, Nat.zero_add]
    have hexponent : power + 1 - digits.length
        = -(((-power - 1).toNat + digits.length : Nat) : Int) := by
      push_cast
      omega
    rw [hspelled, List.length_append, List.length_replicate, hexponent, zpow_neg, zpow_natCast,
      div_eq_mul_inv]
  next hpos =>
    have hwhole : ((power.toNat + 1 : Nat) : Int) = power + 1 := by omega
    dsimp only
    split
    next hshort =>
      -- zeros between the digits and the point
      have hzeros : '.' ∉ digits ++ List.replicate (power.toNat + 1 - digits.length) '0' := by
        simp [hpoint]
      rw [reading_point hzeros, List.append_assoc, spelled_append]
      have hexponent : power + 1 - digits.length
          = ((power.toNat + 1 - digits.length : Nat) : Int) := by omega
      have hlast : spelled (List.replicate (power.toNat + 1 - digits.length) '0' ++ ['0']) = 0 := by
        rw [← List.replicate_one, ← List.replicate_add, spelled_zeros]
      rw [hlast, hexponent, zpow_natCast]
      simp only [List.length_append, List.length_replicate, List.length_singleton]
      push_cast
      rw [pow_succ]
      field_simp
      ring
    next hlong =>
      -- the point stands among the digits
      have hinside : '.' ∉ digits.take (power.toNat + 1) := fun h => hpoint (List.mem_of_mem_take h)
      rw [reading_point hinside, List.take_append_drop, List.length_drop]
      have hexponent : power + 1 - digits.length
          = -((digits.length - (power.toNat + 1) : Nat) : Int) := by omega
      rw [hexponent, zpow_neg, zpow_natCast, div_eq_mul_inv]

end Digits

/-- The digits of scientific notation, with the point after the first one. -/
def pointed : List Char → List Char
  | d :: e :: rest => d :: '.' :: e :: rest
  | short => short

theorem scientific_eq (digits : List Char) (power : Int) :
    scientific digits power = pointed digits ++ 'e' :: power.repr.toList := by
  match digits with
  | [] | [_] | _ :: _ :: _ => rfl

theorem reading_pointed {digits : List Char} (hdigits : ∀ c ∈ digits, c.isDigit = true) :
    reading (pointed digits) = spelled digits * 10 ^ (1 - (digits.length : Int)) := by
  have hpoint := point_not_mem hdigits
  match digits, hpoint with
  | [], _ => simp [pointed, reading, spelled]
  | [d], hpoint => simp [pointed, reading_whole hpoint]
  | d :: e :: rest, hpoint =>
    have hfirst : '.' ∉ [d] := by
      rw [List.mem_singleton]
      rintro rfl
      exact hpoint List.mem_cons_self
    have hexponent : 1 - ((d :: e :: rest).length : Int) = -((e :: rest).length : Int) := by
      simp only [List.length_cons]
      push_cast
      ring
    rw [pointed, ← List.singleton_append, reading_point hfirst, List.singleton_append, hexponent,
      zpow_neg, zpow_natCast, div_eq_mul_inv]

/-! ## Texts -/

/-- Whether the layout writes the decimal positionally. -/
def IsPositional (layout : Layout) (d : Decimal) : Prop :=
  layout.lowest ≤ d.leadingPower ∧ d.leadingPower ≤ layout.highest

instance (layout : Layout) (d : Decimal) : Decidable (d.IsPositional layout) :=
  inferInstanceAs (Decidable (_ ∧ _))

/-- The text in front of the exponent. -/
def mantissaText (layout : Layout) (d : Decimal) : List Char :=
  if d.IsPositional layout then positional d.significantDigits d.leadingPower
  else pointed d.significantDigits

/-- The power of ten that the exponent in the text counts. -/
def scale (layout : Layout) (d : Decimal) : Int :=
  if d.IsPositional layout then 0 else d.leadingPower

/-- The exponent in the text, with its letter. -/
def exponentText (layout : Layout) (d : Decimal) : List Char :=
  if d.IsPositional layout then [] else 'e' :: d.leadingPower.repr.toList

variable {layout : Layout} {d : Decimal}

theorem toList_text :
    (d.text layout).toList = d.mantissaText layout ++ d.exponentText layout := by
  by_cases h : d.IsPositional layout
  · have h' : layout.lowest ≤ d.leadingPower ∧ d.leadingPower ≤ layout.highest := h
    simp [text, mantissaText, exponentText, h, h']
  · have h' : ¬ (layout.lowest ≤ d.leadingPower ∧ d.leadingPower ≤ layout.highest) := h
    simp [text, mantissaText, exponentText, h, h', scientific_eq]

theorem of_mem_positional {digits : List Char} {power : Int} {c : Char}
    (hc : c ∈ positional digits power) : c ∈ digits ∨ c = '0' ∨ c = '.' := by
  rw [positional] at hc
  split at hc
  · simp only [List.mem_cons, List.mem_append, List.mem_replicate] at hc
    rcases hc with rfl | rfl | ⟨-, rfl⟩ | hc <;> simp_all
  · dsimp only at hc
    split at hc
    · simp only [List.mem_cons, List.mem_append, List.mem_replicate, List.not_mem_nil] at hc
      rcases hc with (hc | ⟨-, rfl⟩) | rfl | rfl | hc <;> simp_all
    · simp only [List.mem_cons, List.mem_append] at hc
      rcases hc with hc | rfl | hc
      · exact .inl (List.mem_of_mem_take hc)
      · exact .inr (.inr rfl)
      · exact .inl (List.mem_of_mem_drop hc)

theorem of_mem_pointed {digits : List Char} {c : Char} (hc : c ∈ pointed digits) :
    c ∈ digits ∨ c = '.' := by
  match digits with
  | [] | [_] => exact .inl hc
  | d :: e :: rest =>
    rw [pointed, List.mem_cons, List.mem_cons] at hc
    rcases hc with rfl | rfl | hc
    · exact .inl List.mem_cons_self
    · exact .inr rfl
    · exact .inl (List.mem_cons_of_mem d hc)

/-- In front of the exponent stand digits and points. -/
theorem of_mem_mantissaText {c : Char} (hc : c ∈ d.mantissaText layout) :
    c.isDigit = true ∨ c = '.' := by
  rw [mantissaText] at hc
  split at hc
  · rcases of_mem_positional hc with hc | rfl | rfl
    · exact .inl (isDigit_of_mem_significantDigits hc)
    · exact .inl (by decide)
    · exact .inr rfl
  · rcases of_mem_pointed hc with hc | rfl
    · exact .inl (isDigit_of_mem_significantDigits hc)
    · exact .inr rfl

/-- The value is read off the two parts of the text. -/
theorem value_eq_reading (layout : Layout) (d : Decimal) :
    d.value = reading (d.mantissaText layout) * 10 ^ d.scale layout := by
  have hdigits : ∀ c ∈ d.significantDigits, c.isDigit = true :=
    fun c hc => isDigit_of_mem_significantDigits hc
  have hten : (10 : ℚ) ≠ 0 := by norm_num
  rw [value_eq, mantissaText, scale]
  split
  · rw [reading_positional hdigits, zpow_zero, mul_one]
  · rw [reading_pointed hdigits, mul_assoc, ← zpow_add₀ hten]
    congr 2
    ring

theorem scale_eq_of_exponentText_eq {c : Decimal}
    (h : c.exponentText layout = d.exponentText layout) : c.scale layout = d.scale layout := by
  by_cases hc : c.IsPositional layout <;> by_cases hd : d.IsPositional layout <;>
    simp only [exponentText, hc, hd, if_true, if_false, reduceCtorEq, List.cons.injEq, true_and,
      String.toList_inj, repr_int_inj] at h
  · simp [scale, hc, hd]
  · simp [scale, hc, hd, h]

/-- Decimals with one text have one value. -/
theorem value_eq_of_text_eq {c : Decimal} (h : c.text layout = d.text layout) :
    c.value = d.value := by
  -- the letter `e`, if there is one, separates the mantissa from the exponent
  have hletter (b : Decimal) : ∀ c ∈ b.mantissaText layout, ¬ c = 'e' := by
    rintro c hc rfl
    rcases of_mem_mantissaText hc with h | h <;> revert h <;> decide
  have hexponent (b : Decimal) : ∀ c ∈ (b.exponentText layout).head?, c = 'e' := by
    intro c hc
    rw [exponentText] at hc
    split at hc
    · cases hc
    · simpa [eq_comm] using hc
  have hlist := congrArg String.toList h
  rw [toList_text, toList_text] at hlist
  obtain ⟨hmantissa, htext⟩ :=
    Listing.run_append_inj (hletter c) (hletter d) (hexponent c) (hexponent d) hlist
  rw [value_eq_reading layout c, value_eq_reading layout d, hmantissa,
    scale_eq_of_exponentText_eq htext]

theorem of_mem_text {c : Char} (hc : c ∈ (d.text layout).toList) :
    c.isDigit = true ∨ c = '.' ∨ c = 'e' ∨ c = '-' := by
  rw [toList_text, List.mem_append] at hc
  rcases hc with hc | hc
  · rcases of_mem_mantissaText hc with h | h
    · exact .inl h
    · exact .inr (.inl h)
  · rw [exponentText] at hc
    split at hc
    · cases hc
    · rw [toList_repr_int] at hc
      split at hc <;> simp only [List.mem_cons] at hc
      · rcases hc with rfl | rfl | hc
        · exact .inr (.inr (.inl rfl))
        · exact .inr (.inr (.inr rfl))
        · exact .inl (isDigit_of_mem_digits hc)
      · rcases hc with rfl | hc
        · exact .inr (.inr (.inl rfl))
        · exact .inl (isDigit_of_mem_digits hc)

theorem positional_ne_nil (digits : List Char) (power : Int) : positional digits power ≠ [] := by
  unfold positional
  split
  · simp
  · dsimp only
    split <;> simp

/-- The text of a decimal has no sign. -/
theorem exists_head_text : ∃ c cs, (d.text layout).toList = c :: cs ∧ c ≠ '-' := by
  rw [toList_text]
  cases hm : d.mantissaText layout with
  -- the mantissa comes first, and only digits and the point occur in it
  | cons c cs =>
    refine ⟨c, cs ++ d.exponentText layout, rfl, ?_⟩
    rintro rfl
    have hmem : '-' ∈ d.mantissaText layout := by simp [hm]
    rcases of_mem_mantissaText hmem with h | h <;> revert h <;> decide
  | nil =>
    have hscientific : ¬ d.IsPositional layout := by
      intro hpos
      rw [mantissaText, if_pos hpos] at hm
      exact positional_ne_nil _ _ hm
    exact ⟨'e', d.leadingPower.repr.toList, by simp [exponentText, hscientific], by decide⟩

/-! ## The rounding interval -/

namespace Target

/-- The numbers between the two ends of the interval, which belong to it if it is closed. The
factor takes quarters of the unit to numbers. -/
def Holds (t : Target) (x : ℚ) : Prop :=
  let unit : ℚ := 2 ^ (t.exponent - 2)
  if t.closed = true then t.low * unit ≤ x ∧ x ≤ t.high * unit
  else t.low * unit < x ∧ x < t.high * unit

variable {t : Target}

theorem Holds.bounds {x : ℚ} (h : t.Holds x) :
    t.low * 2 ^ (t.exponent - 2) ≤ x ∧ x ≤ t.high * 2 ^ (t.exponent - 2) := by
  rw [Holds] at h
  split at h
  · exact h
  · exact ⟨h.1.le, h.2.le⟩

theorem Holds.strict_bounds {x : ℚ} (h : t.Holds x) (hopen : t.closed = false) :
    t.low * 2 ^ (t.exponent - 2) < x ∧ x < t.high * 2 ^ (t.exponent - 2) := by
  rw [Holds, hopen] at h
  exact h

theorem quarter_mul (k : Int) :
    (t.quarter k : ℚ) * 10 ^ k = t.step k * 2 ^ (t.exponent - 2) := by
  have hsplit (b : ℚ) (hb : b ≠ 0) (n : Int) : b ^ n * b ^ (-n).toNat = b ^ n.toNat := by
    rw [← zpow_natCast, ← zpow_natCast, ← zpow_add₀ hb]
    congr 1
    omega
  have hten := hsplit 10 (by norm_num) k
  have htwo := hsplit 2 (by norm_num) (t.exponent - 2)
  have hneg : (-(t.exponent - 2)).toNat = (2 - t.exponent).toNat := by congr 1; ring
  rw [hneg] at htwo
  simp only [quarter, step, Nat.pow_eq]
  push_cast
  rw [← hten, ← htwo]
  ring

/-- A comparison of bounds and grid points in their common measure is one of numbers. -/
theorem measure_le_iff (k : Int) (a c : Nat) :
    (a * t.quarter k ≤ c * t.step k ↔ (a : ℚ) * 2 ^ (t.exponent - 2) ≤ c * 10 ^ k) ∧
      (c * t.step k ≤ a * t.quarter k ↔ (c : ℚ) * 10 ^ k ≤ a * 2 ^ (t.exponent - 2)) := by
  have hten : (0 : ℚ) < 10 ^ k := by positivity
  have hstep : (0 : ℚ) < t.step k := by
    simp only [step, Nat.pow_eq]
    positivity
  have hbound : (a : ℚ) * t.quarter k * 10 ^ k = a * 2 ^ (t.exponent - 2) * t.step k := by
    rw [mul_assoc, quarter_mul]
    ring
  have hpoint : (c : ℚ) * t.step k * 10 ^ k = c * 10 ^ k * t.step k := by ring
  constructor
  · rw [← Nat.cast_le (α := ℚ), ← mul_le_mul_iff_left₀ hten]
    push_cast
    rw [hbound, hpoint, mul_le_mul_iff_left₀ hstep]
  · rw [← Nat.cast_le (α := ℚ), ← mul_le_mul_iff_left₀ hten]
    push_cast
    rw [hbound, hpoint, mul_le_mul_iff_left₀ hstep]

/-- The test in exact integers decides whether a grid point lies in the interval. -/
theorem contains_iff (k : Int) (c : Nat) : t.contains k c = true ↔ t.Holds (c * 10 ^ k) := by
  have hlow := t.measure_le_iff k t.low c
  have hhigh := t.measure_le_iff k t.high c
  rw [contains, Holds]
  split
  · simp only [decide_eq_true_eq, hlow.1, hhigh.2]
  · simp only [decide_eq_true_eq, ← not_le, hlow.2, hhigh.1]

theorem contains_of_hit? {k : Int} {c : Nat} (h : t.hit? k = some c) : t.contains k c = true := by
  rw [hit?] at h
  split at h
  next hfloor hceil =>
    split at h <;> cases h
    · exact hfloor
    · exact hceil
  next hfloor _ =>
    cases h
    exact hfloor
  next _ hceil =>
    cases h
    exact hceil
  next => cases h

/-- What the search returns lies in the interval. -/
theorem holds_of_search {k : Int} {n : Nat} {d : Decimal} (h : t.search k n = some d) :
    t.Holds d.value := by
  induction n generalizing k with
  | zero => cases h
  | succ n ih =>
    rw [search] at h
    split at h
    next c hc =>
      cases h
      exact (contains_iff k c).mp (contains_of_hit? hc)
    next => exact ih h

theorem value_exact : t.exact.value = t.significand * 2 ^ t.exponent := by
  simp only [exact, value, Nat.pow_eq]
  split
  next hneg =>
    -- a negative power of two is a power of five over one of ten
    have hexponent : ((-t.exponent).toNat : Int) = -t.exponent := Int.toNat_of_nonneg (by omega)
    have hfive : (5 : ℚ) ^ (-t.exponent).toNat * 10 ^ t.exponent = 2 ^ t.exponent := by
      rw [← zpow_natCast, hexponent, zpow_neg, show (10 : ℚ) = 5 * 2 by norm_num, mul_zpow]
      have : (5 : ℚ) ^ t.exponent ≠ 0 := by positivity
      field_simp
    push_cast
    rw [mul_assoc, hfive]
  next hpos =>
    have hexponent : (t.exponent.toNat : Int) = t.exponent := Int.toNat_of_nonneg (by omega)
    push_cast
    rw [← zpow_natCast, hexponent, mul_one]

/-- The number itself lies in its interval. -/
theorem holds_exact : t.Holds t.exact.value := by
  have hunit : (0 : ℚ) < 2 ^ (t.exponent - 2) := by positivity
  have hvalue : t.exact.value = t.middle * 2 ^ (t.exponent - 2) := by
    rw [value_exact, middle, zpow_sub₀ (by norm_num)]
    push_cast
    ring
  have hlow : t.low ≤ t.middle := by
    unfold low
    split <;> omega
  have hhigh : t.middle < t.high := by
    unfold high
    omega
  rw [Holds, hvalue]
  simp only [mul_le_mul_iff_left₀ hunit, mul_lt_mul_iff_left₀ hunit, Nat.cast_le, Nat.cast_lt]
  split
  next => exact ⟨hlow, hhigh.le⟩
  next hopen =>
    -- an odd significand is positive, so that the lower end is below the number
    have hodd : t.significand % 2 = 1 := by
      rw [closed, beq_iff_eq] at hopen
      omega
    refine ⟨?_, hhigh⟩
    rw [low, middle]
    split <;> omega

/-- The shortest decimal lies in the interval. -/
theorem holds_shortest (t : Target) : t.Holds t.shortest.value := by
  unfold shortest
  cases h : t.search t.leading 17 with
  | none => exact holds_exact
  | some d => exact holds_of_search h

end Target

end JoinIR.Decimal
