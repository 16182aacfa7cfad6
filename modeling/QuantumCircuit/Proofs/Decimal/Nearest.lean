import Mathlib
import QuantumCircuit.Decimal.Rounding

/-!
# Reading a decimal number back

The decimal numbers that are read as one positive finite binary number `m * 2 ^ p` fill
an interval around it.  This file describes the interval by rational numbers (`Nears`) and
shows that `Decimal.toBinary64` answers with the binary number for every decimal number in
it:

* `quotientPower_spec` finds the leading power of two of a quotient;
* `nearestNatural_eq` rounds a quotient to the one natural number that is near to it;
* `ofQuotient_eq` puts both together, including the carry at a power of two.
-/

namespace QuantumCircuit

/-! ### Powers as quotients of natural numbers -/

/-- An integer power of a natural base is the quotient of two natural powers. -/
theorem zpow_eq_div (base : ℕ) (hBase : 0 < base) (e : ℤ) :
    (base : ℚ) ^ e = (base : ℚ) ^ e.toNat / (base : ℚ) ^ (-e).toNat := by
  have hBase' : (base : ℚ) ≠ 0 := by exact_mod_cast hBase.ne'
  rw [eq_div_iff (pow_ne_zero _ hBase'), ← zpow_natCast, ← zpow_natCast, ← zpow_add₀ hBase']
  congr 1
  omega

theorem two_zpow_pos (e : ℤ) : (0 : ℚ) < 2 ^ e := zpow_pos (by norm_num) e

theorem ten_zpow_pos (e : ℤ) : (0 : ℚ) < 10 ^ e := zpow_pos (by norm_num) e

/-- A quotient scaled by a power of two, as a quotient of natural numbers. -/
theorem scaled_quotient (n d : ℕ) (e : ℤ) :
    ((n * 2 ^ (-e).toNat : ℕ) : ℚ) / ((d * 2 ^ e.toNat : ℕ) : ℚ) = (n : ℚ) / d / 2 ^ e := by
  have hPower := zpow_eq_div 2 (by norm_num) e
  push_cast at hPower ⊢
  rw [hPower, div_div_div_eq]

/-- The largest binary numbers have at most 309 digits. -/
theorem two_pow_1024_lt : 2 ^ 1024 < 10 ^ 311 := by decide +kernel

/-- The smallest place is far above the 401st decimal place. -/
theorem two_pow_1076_lt : 2 * 2 ^ 1075 < 10 ^ 401 := by decide +kernel

/-! ### The leading power of a quotient -/

theorem log2_spec {n : ℕ} (hPos : 0 < n) :
    ((2 : ℚ) ^ (n.log2 : ℤ) ≤ n) ∧ (n : ℚ) < 2 ^ ((n.log2 : ℤ) + 1) := by
  constructor
  · rw [zpow_natCast]
    exact_mod_cast Nat.log2_self_le hPos.ne'
  · have hUpper := Nat.lt_log2_self (n := n)
    rw [show ((n.log2 : ℤ) + 1) = ((n.log2 + 1 : ℕ) : ℤ) by push_cast; ring, zpow_natCast]
    exact_mod_cast hUpper

/-- The comparison of `quotientPower` is one of a power of two with the quotient. -/
theorem two_zpow_le_quotient_iff {n d : ℕ} (hd : 0 < d) (e : ℤ) :
    d * 2 ^ e.toNat ≤ n * 2 ^ (-e).toNat ↔ (2 : ℚ) ^ e ≤ (n : ℚ) / d := by
  have hPower := zpow_eq_div 2 (by norm_num) e
  push_cast at hPower
  have hDenominator : (0 : ℚ) < d := by exact_mod_cast hd
  rw [hPower, div_le_div_iff₀ (by positivity) hDenominator, mul_comm ((2 : ℚ) ^ e.toNat)]
  exact_mod_cast Iff.rfl

theorem quotientPower_def (n d : ℕ) :
    quotientPower n d =
      (let guess : ℤ := (n.log2 : ℤ) - d.log2
      if d * 2 ^ guess.toNat ≤ n * 2 ^ (-guess).toNat then guess else guess - 1) := rfl

theorem quotientPower_spec {n d : ℕ} (hn : 0 < n) (hd : 0 < d) :
    (2 : ℚ) ^ quotientPower n d ≤ (n : ℚ) / d ∧ (n : ℚ) / d < 2 ^ (quotientPower n d + 1) := by
  obtain ⟨hnLow, hnHigh⟩ := log2_spec hn
  obtain ⟨hdLow, hdHigh⟩ := log2_spec hd
  have hDenominator : (0 : ℚ) < d := by exact_mod_cast hd
  have hUpper : (n : ℚ) / d < 2 ^ ((n.log2 : ℤ) - d.log2 + 1) := by
    rw [div_lt_iff₀ hDenominator]
    calc
      (n : ℚ) < 2 ^ ((n.log2 : ℤ) + 1) := hnHigh
      _ = 2 ^ ((n.log2 : ℤ) - d.log2 + 1) * 2 ^ (d.log2 : ℤ) := by
        rw [← zpow_add₀ (by norm_num)]; congr 1; ring
      _ ≤ 2 ^ ((n.log2 : ℤ) - d.log2 + 1) * d :=
        mul_le_mul_of_nonneg_left hdLow (two_zpow_pos _).le
  have hLower : (2 : ℚ) ^ ((n.log2 : ℤ) - d.log2 - 1) ≤ (n : ℚ) / d := by
    rw [le_div_iff₀ hDenominator]
    calc
      (2 : ℚ) ^ ((n.log2 : ℤ) - d.log2 - 1) * d
          ≤ 2 ^ ((n.log2 : ℤ) - d.log2 - 1) * 2 ^ ((d.log2 : ℤ) + 1) :=
        mul_le_mul_of_nonneg_left hdHigh.le (two_zpow_pos _).le
      _ = 2 ^ (n.log2 : ℤ) := by rw [← zpow_add₀ (by norm_num)]; congr 1; ring
      _ ≤ n := hnLow
  rw [quotientPower_def]
  dsimp only
  -- the difference of the logarithms is the power, or one more
  split
  · rename_i hReached
    exact ⟨(two_zpow_le_quotient_iff hd _).mp hReached, hUpper⟩
  · rename_i hReached
    refine ⟨hLower, ?_⟩
    rw [two_zpow_le_quotient_iff hd, not_le] at hReached
    rwa [sub_add_cancel]

/-- The leading power is determined by the bounds that it satisfies. -/
theorem quotientPower_eq {n d : ℕ} (hn : 0 < n) (hd : 0 < d) {e : ℤ}
    (hLow : (2 : ℚ) ^ e ≤ (n : ℚ) / d) (hHigh : (n : ℚ) / d < 2 ^ (e + 1)) :
    quotientPower n d = e := by
  obtain ⟨hFound, hFound'⟩ := quotientPower_spec hn hd
  have h₁ : (2 : ℚ) ^ e < 2 ^ (quotientPower n d + 1) := lt_of_le_of_lt hLow hFound'
  have h₂ : (2 : ℚ) ^ quotientPower n d < 2 ^ (e + 1) := lt_of_le_of_lt hFound hHigh
  rw [zpow_lt_zpow_iff_right₀ (by norm_num)] at h₁ h₂
  omega

/-! ### Rounding to a natural number -/

/-- The nearest natural number is one of the two neighbours of a quotient. -/
theorem nearestNatural_cases (tie : Tie) (n d : ℕ) :
    nearestNatural tie n d = n / d ∨ nearestNatural tie n d = n / d + 1 := by
  unfold nearestNatural
  dsimp only
  split
  · exact Or.inr rfl
  · exact Or.inl rfl

/-- A quotient within one half of a natural number is rounded to it; at exactly one half
the natural number has to be even. -/
theorem nearestNatural_eq {n d m : ℕ} (hd : 0 < d)
    (hLow : (m : ℚ) - 1 / 2 ≤ (n : ℚ) / d) (hHigh : (n : ℚ) / d ≤ m + 1 / 2)
    (hTie : m % 2 = 1 → (m : ℚ) - 1 / 2 < (n : ℚ) / d ∧ (n : ℚ) / d < m + 1 / 2) :
    nearestNatural .toEven n d = m := by
  have hDenominator : (0 : ℚ) < d := by exact_mod_cast hd
  -- the bounds as inequalities between natural numbers
  have hLow' : 2 * (m * d) ≤ 2 * n + d := by
    rw [le_div_iff₀ hDenominator] at hLow
    have h : (2 * (m * d) : ℚ) ≤ 2 * n + d := by linarith
    exact_mod_cast h
  have hHigh' : 2 * n ≤ 2 * (m * d) + d := by
    rw [div_le_iff₀ hDenominator] at hHigh
    have h : (2 * n : ℚ) ≤ 2 * (m * d) + d := by linarith
    exact_mod_cast h
  have hTie' : m % 2 = 1 → 2 * (m * d) < 2 * n + d ∧ 2 * n < 2 * (m * d) + d := by
    intro hOdd
    obtain ⟨h₁, h₂⟩ := hTie hOdd
    rw [lt_div_iff₀ hDenominator] at h₁
    rw [div_lt_iff₀ hDenominator] at h₂
    have h₁' : (2 * (m * d) : ℚ) < 2 * n + d := by linarith
    have h₂' : (2 * n : ℚ) < 2 * (m * d) + d := by linarith
    exact ⟨by exact_mod_cast h₁', by exact_mod_cast h₂'⟩
  have hDivision : d * (n / d) + n % d = n := Nat.div_add_mod n d
  have hRemainder : n % d < d := Nat.mod_lt n hd
  have hBelow : d * (n / d) ≤ n := Nat.mul_div_le n d
  -- the quotient is `m`, or `m - 1` with a remainder of at least one half
  obtain hEq | hEq : n / d = m ∨ n / d + 1 = m := by
    have h₁ : n / d ≤ m := by
      by_contra hGreater
      have : d * (m + 1) ≤ d * (n / d) := Nat.mul_le_mul_left d (by omega)
      nlinarith
    have h₂ : m ≤ n / d + 1 := by
      by_contra hLess
      have : d * (n / d + 2) ≤ d * m := Nat.mul_le_mul_left d (by omega)
      nlinarith
    omega
  · have hProduct : d * (n / d) = m * d := by rw [hEq, mul_comm]
    unfold nearestNatural roundsUp
    rcases Nat.lt_trichotomy (2 * (n % d)) d with hLt | hSame | hGt
    · simp [Nat.compare_eq_lt.mpr hLt, hEq]
    · have hEven : m % 2 ≠ 1 := fun hOdd => by have := hTie' hOdd; omega
      simp [Nat.compare_eq_eq.mpr hSame, hEq, hEven]
    · omega
  · have hProduct : d * (n / d) + d = m * d := by rw [← hEq]; ring
    unfold nearestNatural roundsUp
    rcases Nat.lt_trichotomy (2 * (n % d)) d with hLt | hSame | hGt
    · omega
    · have hOdd : n / d % 2 = 1 := by
        by_contra hEven
        have := hTie' (by omega)
        omega
      simp [Nat.compare_eq_eq.mpr hSame, hOdd, hEq]
    · simp [Nat.compare_eq_gt.mpr hGt, hEq]

/-! ### The numbers that are read as one binary number -/

namespace Binary64

/-- How far the numbers that are read as `x` reach below it, in units of `x`.  The neighbour
below a power of two is half as far away as the one above. -/
def reachBelow (x : Binary64) : ℚ :=
  if x.fraction = 0 ∧ 1 < x.storedExponent then 1 / 4 else 1 / 2

/-- The rational numbers that are nearest to a finite binary number without a sign; the
ends of the interval belong to it exactly when the number is even. -/
structure Nears (x : Binary64) (v : ℚ) : Prop where
  lower : (x.units - x.reachBelow) * 2 ^ x.place ≤ v
  upper : v ≤ (x.units + 1 / 2) * 2 ^ x.place
  strict : x.units % 2 = 1 →
    (x.units - x.reachBelow) * 2 ^ x.place < v ∧ v < (x.units + 1 / 2) * 2 ^ x.place

variable {x : Binary64}

theorem isNegative_def (x : Binary64) :
    x.isNegative = decide (2 ^ 63 ≤ x.bits.toNat) := rfl

theorem magnitude_def (x : Binary64) : x.magnitude = x.bits.toNat % 2 ^ 63 := rfl

theorem storedExponent_def (x : Binary64) : x.storedExponent = x.magnitude / 2 ^ 52 := rfl

theorem isFinite_def (x : Binary64) : x.isFinite = decide (x.storedExponent ≠ 2 ^ 11 - 1) := rfl

theorem units_def (x : Binary64) :
    x.units = if x.storedExponent = 0 then x.fraction else x.fraction + 2 ^ 52 := rfl

/-- The magnitude that rounding a quotient puts together from its place and its units. -/
def quotientMagnitude (n d : ℕ) : ℕ :=
  let place := max (quotientPower n d - 52) (-1074)
  (place + 1074).toNat * 2 ^ 52 +
    nearestNatural .toEven (n * 2 ^ (-place).toNat) (d * 2 ^ place.toNat)

theorem ofQuotient_def (n d : ℕ) :
    ofQuotient n d =
      if quotientMagnitude n d < infinity.bits.toNat then ⟨UInt64.ofNat (quotientMagnitude n d)⟩
      else infinity := rfl

theorem fraction_lt (x : Binary64) : x.fraction < 2 ^ 52 := Nat.mod_lt _ (by norm_num)

theorem units_lt (x : Binary64) : x.units < 2 ^ 53 := by
  have hFraction := x.fraction_lt
  rw [units_def]
  split <;> omega

theorem neg_1074_le_place (x : Binary64) : -1074 ≤ x.place := by
  unfold place
  split <;> omega

theorem reachBelow_le_half (x : Binary64) : x.reachBelow ≤ 1 / 2 := by
  unfold reachBelow
  split <;> norm_num

/-- The stored exponent and the fraction make up the magnitude. -/
theorem magnitude_eq (x : Binary64) :
    x.magnitude = (x.place + 1074).toNat * 2 ^ 52 + x.units := by
  have hMagnitude : x.magnitude = 2 ^ 52 * x.storedExponent + x.fraction :=
    (Nat.div_add_mod x.magnitude (2 ^ 52)).symm
  rw [units_def]
  unfold place
  split <;> omega

theorem magnitude_lt_infinity (hFinite : x.isFinite = true) :
    x.magnitude < infinity.bits.toNat := by
  have hInfinity : infinity.bits.toNat = 2047 * 2 ^ 52 := rfl
  have hStored : x.storedExponent ≠ 2 ^ 11 - 1 := by simpa [isFinite_def] using hFinite
  have hBound : x.magnitude < 2 ^ 63 := Nat.mod_lt _ (by norm_num)
  have hDivision := Nat.div_add_mod x.magnitude (2 ^ 52)
  have hFraction := Nat.mod_lt x.magnitude (show 0 < 2 ^ 52 by norm_num)
  have hQuotient : x.storedExponent = x.magnitude / 2 ^ 52 := rfl
  omega

/-- A number without a sign is given by its magnitude. -/
theorem eq_of_magnitude (hSign : x.isNegative = false) :
    (⟨UInt64.ofNat x.magnitude⟩ : Binary64) = x := by
  have hBits : x.bits.toNat < 2 ^ 63 := by simpa [isNegative_def] using hSign
  have hSame : x.magnitude = x.bits.toNat := Nat.mod_eq_of_lt hBits
  rw [hSame, UInt64.ofNat_toNat]

/-- Only the smallest numbers have no leading one. -/
theorem le_units (hPlace : -1074 < x.place) : 2 ^ 52 ≤ x.units := by
  unfold place at hPlace
  rw [units_def]
  split at hPlace <;> split <;> omega

theorem place_le (hFinite : x.isFinite = true) : x.place ≤ 971 := by
  have hInfinity : infinity.bits.toNat = 2047 * 2 ^ 52 := rfl
  have hBound := magnitude_lt_infinity hFinite
  have hMagnitude := x.magnitude_eq
  by_contra hLarge
  have hUnits := le_units (x := x) (by omega)
  omega

theorem units_pos (hPos : 0 < x.magnitude) : 0 < x.units := by
  have hMagnitude := x.magnitude_eq
  have hPlace : x.units = 0 → x.place = -1074 := by
    rw [units_def]
    unfold place
    split <;> omega
  by_contra hZero
  have := hPlace (by omega)
  omega

theorem Nears.pos {v : ℚ} (h : x.Nears v) (hPos : 0 < x.magnitude) : 0 < v := by
  have hUnits : (1 : ℚ) ≤ x.units := by exact_mod_cast units_pos hPos
  have hReach := x.reachBelow_le_half
  have hPower := two_zpow_pos x.place
  have hFactor : 0 < (x.units - x.reachBelow : ℚ) := by linarith
  exact lt_of_lt_of_le (mul_pos hFactor hPower) h.lower

/-- The place at which a quotient near to `x` is rounded is that of `x`, unless the quotient
lies below a power of two that `x` is. -/
theorem ofQuotient_place {n d : ℕ} (hn : 0 < n) (hd : 0 < d) (h : x.Nears (n / d))
    (hLow : x.place = -1074 ∨ (2 : ℚ) ^ (x.place + 52) ≤ (n : ℚ) / d) :
    max (quotientPower n d - 52) (-1074) = x.place := by
  have hPower := two_zpow_pos x.place
  have hUnits : (x.units : ℚ) + 1 ≤ 2 ^ 53 := by exact_mod_cast x.units_lt
  have hHigh : (n : ℚ) / d < 2 ^ (x.place + 52 + 1) := by
    calc
      (n : ℚ) / d ≤ (x.units + 1 / 2) * 2 ^ x.place := h.upper
      _ < 2 ^ 53 * 2 ^ x.place := by nlinarith
      _ = 2 ^ (x.place + 52 + 1) := by
        rw [add_assoc, zpow_add₀ (by norm_num), mul_comm]; norm_num
  rcases hLow with hLeast | hLow
  · obtain ⟨hFound, -⟩ := quotientPower_spec hn hd
    have hLess := lt_of_le_of_lt hFound hHigh
    rw [zpow_lt_zpow_iff_right₀ (by norm_num)] at hLess
    omega
  · have hLeast := x.neg_1074_le_place
    rw [quotientPower_eq hn hd hLow hHigh]
    omega

/-- A number that has smaller quotients near to it than its leading place allows is a power
of two. -/
theorem Nears.power_of_two {v : ℚ} (h : x.Nears v) (hPlace : -1074 < x.place)
    (hBelow : v < 2 ^ (x.place + 52)) : x.units = 2 ^ 52 ∧ x.reachBelow = 1 / 4 := by
  have hPower := two_zpow_pos x.place
  have hReach := x.reachBelow_le_half
  have hUnits : x.units = 2 ^ 52 := by
    have hLess : (x.units - x.reachBelow) * 2 ^ x.place < 2 ^ 52 * 2 ^ x.place := by
      calc
        (x.units - x.reachBelow) * 2 ^ x.place ≤ v := h.lower
        _ < 2 ^ (x.place + 52) := hBelow
        _ = 2 ^ 52 * 2 ^ x.place := by
          rw [zpow_add₀ (by norm_num), mul_comm]; norm_num
    have hFactor : (x.units : ℚ) - x.reachBelow < 2 ^ 52 :=
      lt_of_mul_lt_mul_right hLess hPower.le
    have hUpper : (x.units : ℚ) < (2 ^ 52 + 1 : ℕ) := by push_cast; linarith
    have hLower := le_units hPlace
    have hUpper' : x.units < 2 ^ 52 + 1 := by exact_mod_cast hUpper
    omega
  refine ⟨hUnits, ?_⟩
  unfold place at hPlace
  rw [units_def] at hUnits
  unfold reachBelow
  split at hPlace
  · omega
  · rename_i hStored
    rw [if_neg hStored] at hUnits
    exact if_pos ⟨by omega, by omega⟩

/-- A quotient that is rounded at the place of `x` has its magnitude. -/
theorem quotientMagnitude_of_place {n d : ℕ} (hn : 0 < n) (hd : 0 < d) (h : x.Nears (n / d))
    (hLow : x.place = -1074 ∨ (2 : ℚ) ^ (x.place + 52) ≤ (n : ℚ) / d) :
    quotientMagnitude n d = x.magnitude := by
  have hPower := two_zpow_pos x.place
  have hReach := x.reachBelow_le_half
  rw [quotientMagnitude, ofQuotient_place hn hd h hLow, x.magnitude_eq]
  congr 1
  apply nearestNatural_eq (by positivity) <;> rw [scaled_quotient]
  · rw [le_div_iff₀ hPower]
    nlinarith [h.lower]
  · rw [div_le_iff₀ hPower]
    exact h.upper
  · intro hOdd
    obtain ⟨h₁, h₂⟩ := h.strict hOdd
    rw [lt_div_iff₀ hPower, div_lt_iff₀ hPower]
    exact ⟨by nlinarith, h₂⟩

/-- A quotient just below a power of two is rounded at a smaller place, and it is carried. -/
theorem quotientMagnitude_of_carry {n d : ℕ} (hn : 0 < n) (hd : 0 < d) (h : x.Nears (n / d))
    (hPlace : -1074 < x.place) (hBelow : (n : ℚ) / d < 2 ^ (x.place + 52)) :
    quotientMagnitude n d = x.magnitude := by
  obtain ⟨hUnits, hReach⟩ := h.power_of_two hPlace hBelow
  have hMagnitude := x.magnitude_eq
  -- there the places are half as wide
  have hHalf : (2 : ℚ) ^ x.place = 2 ^ (x.place - 1) * 2 := by
    rw [← zpow_add_one₀ (by norm_num), sub_add_cancel]
  have hUpper : (n : ℚ) / d < 2 ^ 53 * 2 ^ (x.place - 1) := by
    calc
      (n : ℚ) / d < 2 ^ (x.place + 52) := hBelow
      _ = 2 ^ 53 * 2 ^ (x.place - 1) := by
        rw [show x.place + 52 = (x.place - 1) + 53 by ring, zpow_add₀ (by norm_num), mul_comm]
        norm_num
  have hLower : (2 ^ 53 - 1 / 2) * 2 ^ (x.place - 1) ≤ (n : ℚ) / d := by
    have hBound := h.lower
    rw [hUnits, hReach, hHalf] at hBound
    push_cast at hBound
    linarith
  have hHalfPos := two_zpow_pos (x.place - 1)
  have hLeading : quotientPower n d = x.place + 51 := by
    apply quotientPower_eq hn hd
    · have hSplit : (2 : ℚ) ^ (x.place + 51) = 2 ^ 52 * 2 ^ (x.place - 1) := by
        rw [show x.place + 51 = (x.place - 1) + 52 by ring, zpow_add₀ (by norm_num), mul_comm]
        norm_num
      rw [hSplit]
      nlinarith
    · rwa [add_assoc]
  have hCarried : max (quotientPower n d - 52) (-1074) = x.place - 1 := by omega
  -- all 53 places are taken, and the carry moves into the stored exponent
  have hNearest : nearestNatural .toEven (n * 2 ^ (-(x.place - 1)).toNat)
      (d * 2 ^ (x.place - 1).toNat) = 2 ^ 53 := by
    apply nearestNatural_eq (by positivity) <;> rw [scaled_quotient]
    · rw [le_div_iff₀ hHalfPos]
      push_cast
      linarith
    · rw [div_le_iff₀ hHalfPos]
      push_cast
      nlinarith
    · intro hOdd
      omega
  rw [quotientMagnitude, hCarried, hNearest, hMagnitude, hUnits]
  omega

/-- The quotients that are nearest to a positive finite number are rounded to it. -/
theorem ofQuotient_eq {n d : ℕ} (hFinite : x.isFinite = true) (hSign : x.isNegative = false)
    (hPos : 0 < x.magnitude) (hd : 0 < d) (h : x.Nears (n / d)) : ofQuotient n d = x := by
  have hQuotient := h.pos hPos
  have hn : 0 < n := by
    rcases Nat.eq_zero_or_pos n with rfl | hn
    · simp at hQuotient
    · exact hn
  have hLeast := x.neg_1074_le_place
  have hMagnitude : quotientMagnitude n d = x.magnitude := by
    by_cases hLow : x.place = -1074 ∨ (2 : ℚ) ^ (x.place + 52) ≤ (n : ℚ) / d
    · exact quotientMagnitude_of_place hn hd h hLow
    · rw [not_or, not_le] at hLow
      exact quotientMagnitude_of_carry hn hd h (by omega) hLow.2
  rw [ofQuotient_def, hMagnitude, if_pos (magnitude_lt_infinity hFinite)]
  exact eq_of_magnitude hSign

/-- A quotient below `2 ^ 64` is rounded to a finite number. -/
theorem isFinite_ofQuotient {n d : ℕ} (hn : 0 < n) (hd : 0 < d) (h : (n : ℚ) / d < 2 ^ 64) :
    (ofQuotient n d).isFinite = true := by
  obtain ⟨hLow, hHigh⟩ := quotientPower_spec hn hd
  have hLeading : quotientPower n d < 64 := by
    have hPower : (2 : ℚ) ^ quotientPower n d < 2 ^ (64 : ℤ) := by
      rw [zpow_ofNat]
      exact lt_of_le_of_lt hLow h
    rwa [zpow_lt_zpow_iff_right₀ (by norm_num)] at hPower
  rw [ofQuotient_def, quotientMagnitude]
  generalize hPlace : max (quotientPower n d - 52) (-1074) = place
  have hUnits : nearestNatural .toEven (n * 2 ^ (-place).toNat) (d * 2 ^ place.toNat) ≤ 2 ^ 53 := by
    have hQuotient : n * 2 ^ (-place).toNat / (d * 2 ^ place.toNat) < 2 ^ 53 := by
      have hPos : 0 < d * 2 ^ place.toNat := by positivity
      have hScaled := scaled_quotient n d place
      have hBound : (n : ℚ) / d / 2 ^ place < 2 ^ 53 := by
        rw [div_lt_iff₀ (two_zpow_pos place)]
        calc
          (n : ℚ) / d < 2 ^ (quotientPower n d + 1) := hHigh
          _ ≤ 2 ^ (53 + place) := zpow_le_zpow_right₀ (by norm_num) (by omega)
          _ = 2 ^ 53 * 2 ^ place := by rw [zpow_add₀ (by norm_num), zpow_ofNat]
      rw [← hScaled, div_lt_iff₀ (by exact_mod_cast hPos)] at hBound
      rw [Nat.div_lt_iff_lt_mul hPos]
      exact_mod_cast hBound
    rcases nearestNatural_cases .toEven (n * 2 ^ (-place).toNat) (d * 2 ^ place.toNat) with
      hDown | hUp
    · omega
    · omega
  generalize nearestNatural .toEven (n * 2 ^ (-place).toNat) (d * 2 ^ place.toNat) = units
    at hUnits ⊢
  have hInfinity : infinity.bits.toNat = 2047 * 2 ^ 52 := by decide
  have hMagnitude : (place + 1074).toNat * 2 ^ 52 + units < 2046 * 2 ^ 52 := by omega
  rw [if_pos (by omega), isFinite_def, storedExponent_def, magnitude_def, UInt64.toNat_ofNat',
    Nat.mod_eq_of_lt (by omega), Nat.mod_eq_of_lt (by omega)]
  exact decide_eq_true (by omega)

/-- No number of 310 zeros is near to a finite number. -/
theorem Nears.lt_ten_pow {v : ℚ} (h : x.Nears v) (hFinite : x.isFinite = true) :
    v < 10 ^ (311 : ℤ) := by
  have hUnits : (x.units : ℚ) + 1 ≤ 2 ^ 53 := by exact_mod_cast x.units_lt
  have hPower : (2 : ℚ) ^ x.place ≤ 2 ^ (971 : ℤ) :=
    zpow_le_zpow_right₀ (by norm_num) (place_le hFinite)
  calc
    v ≤ (x.units + 1 / 2) * 2 ^ x.place := h.upper
    _ ≤ 2 ^ 53 * 2 ^ (971 : ℤ) :=
      mul_le_mul (by linarith) hPower (two_zpow_pos _).le (by norm_num)
    _ = 2 ^ 1024 := by rw [zpow_ofNat, ← pow_add]
    _ < 10 ^ (311 : ℤ) := by rw [zpow_ofNat]; exact_mod_cast two_pow_1024_lt

/-- No number below half of the smallest place is near to a positive number. -/
theorem Nears.half_place_le {v : ℚ} (h : x.Nears v) (hPos : 0 < x.magnitude) :
    (2 : ℚ) ^ (-1075 : ℤ) ≤ v := by
  have hUnits : (1 : ℚ) ≤ x.units := by exact_mod_cast units_pos hPos
  have hReach := x.reachBelow_le_half
  have hPower : (2 : ℚ) ^ (-1074 : ℤ) ≤ 2 ^ x.place :=
    zpow_le_zpow_right₀ (by norm_num) x.neg_1074_le_place
  calc
    (2 : ℚ) ^ (-1075 : ℤ) = 1 / 2 * 2 ^ (-1074 : ℤ) := by
      rw [show (-1075 : ℤ) = -1 + -1074 by norm_num, zpow_add₀ (by norm_num), zpow_neg_one,
        one_div]
    _ ≤ (x.units - x.reachBelow) * 2 ^ x.place :=
      mul_le_mul (by linarith) hPower (two_zpow_pos _).le (by linarith)
    _ ≤ v := h.lower

end Binary64

/-! ### Decimal numbers -/

namespace Decimal

/-- The rational number that a decimal number stands for. -/
def value (d : Decimal) : ℚ := d.coefficient * 10 ^ d.exponent

theorem toBinary64_def (d : Decimal) :
    d.toBinary64 =
      if d.coefficient = 0 then .zero
      else if 310 < d.exponent then .infinity
      else if d.exponent < -((400 + d.coefficient.log2 : ℕ) : ℤ) then .zero
      else .ofQuotient (d.coefficient * 10 ^ d.exponent.toNat) (10 ^ (-d.exponent).toNat) := rfl

/-- The value as the quotient that is rounded. -/
theorem value_eq_div (d : Decimal) :
    ((d.coefficient * 10 ^ d.exponent.toNat : ℕ) : ℚ) / ((10 ^ (-d.exponent).toNat : ℕ) : ℚ) =
      d.value := by
  have hPower := zpow_eq_div 10 (by norm_num) d.exponent
  push_cast at hPower ⊢
  rw [value, hPower, mul_div_assoc]

/-- An exponent far below the length of the coefficient makes the value tiny. -/
theorem value_lt_of_exponent_lt {d : Decimal}
    (h : d.exponent < -((400 + d.coefficient.log2 : ℕ) : ℤ)) :
    d.value < 2 ^ (-1075 : ℤ) := by
  have hCoefficient : (d.coefficient : ℚ) ≤ 2 * 10 ^ d.coefficient.log2 := by
    have hNat : d.coefficient ≤ 2 * 10 ^ d.coefficient.log2 := by
      have hLog := Nat.lt_log2_self (n := d.coefficient)
      have hBase : 2 ^ d.coefficient.log2 ≤ 10 ^ d.coefficient.log2 :=
        Nat.pow_le_pow_left (by norm_num) _
      omega
    exact_mod_cast hNat
  have hPower : (10 : ℚ) ^ d.exponent ≤ 10 ^ (-401 - (d.coefficient.log2 : ℤ)) :=
    zpow_le_zpow_right₀ (by norm_num) (by push_cast at h; omega)
  calc
    d.value ≤ 2 * 10 ^ d.coefficient.log2 * 10 ^ (-401 - (d.coefficient.log2 : ℤ)) :=
      mul_le_mul hCoefficient hPower (ten_zpow_pos _).le (by positivity)
    _ = 2 * 10 ^ (-401 : ℤ) := by
      rw [mul_assoc, ← zpow_natCast, ← zpow_add₀ (by norm_num)]
      congr 2
      ring
    _ < 2 ^ (-1075 : ℤ) := by
      rw [zpow_neg, zpow_neg, zpow_ofNat, zpow_ofNat, ← div_eq_mul_inv, inv_eq_one_div,
        div_lt_div_iff₀ (by positivity) (by positivity), one_mul]
      exact_mod_cast two_pow_1076_lt

/-- **Reading back.**  Every decimal number that is nearest to a finite binary number without a
sign is read as that number. -/
theorem toBinary64_eq {d : Decimal} {x : Binary64} (hFinite : x.isFinite = true)
    (hSign : x.isNegative = false) (hPos : 0 < x.magnitude) (h : x.Nears d.value) :
    d.toBinary64 = x := by
  have hCoefficient : d.coefficient ≠ 0 := by
    intro hZero
    have hValue := h.pos hPos
    simp [value, hZero] at hValue
  have hSmall : ¬ 310 < d.exponent := by
    intro hLarge
    have hPower : (10 : ℚ) ^ (311 : ℤ) ≤ 10 ^ d.exponent :=
      zpow_le_zpow_right₀ (by norm_num) (by omega)
    have hOne : (1 : ℚ) ≤ d.coefficient := by
      exact_mod_cast Nat.one_le_iff_ne_zero.mpr hCoefficient
    have hValue : (10 : ℚ) ^ d.exponent ≤ d.value :=
      le_mul_of_one_le_left (ten_zpow_pos _).le hOne
    have hBound := h.lt_ten_pow hFinite
    linarith
  have hLarge : ¬ d.exponent < -((400 + d.coefficient.log2 : ℕ) : ℤ) := by
    intro hTiny
    have hBound := h.half_place_le hPos
    have hValue := value_lt_of_exponent_lt hTiny
    linarith
  rw [toBinary64_def, if_neg hCoefficient, if_neg hSmall, if_neg hLarge]
  apply Binary64.ofQuotient_eq hFinite hSign hPos (by positivity)
  rwa [value_eq_div]

/-! ### Signs and sizes -/

/-- A number that is read has no sign. -/
theorem isNegative_toBinary64 (d : Decimal) : d.toBinary64.isNegative = false := by
  rw [toBinary64_def]
  split
  · rfl
  · split
    · rfl
    · split
      · rfl
      · rw [Binary64.ofQuotient_def]
        split
        · rename_i hBound
          have hInfinity : Binary64.infinity.bits.toNat = 2047 * 2 ^ 52 := by decide
          rw [hInfinity] at hBound
          rw [Binary64.isNegative_def, UInt64.toNat_ofNat', Nat.mod_eq_of_lt (by omega)]
          exact decide_eq_false (by omega)
        · rfl

/-- A number below `2 ^ 64` is far from infinite. -/
theorem isFinite_toBinary64 {d : Decimal} (h : d.value < 2 ^ 64) :
    d.toBinary64.isFinite = true := by
  rw [toBinary64_def]
  split
  · rfl
  · rename_i hCoefficient
    split
    · rename_i hLarge
      have hPower : (10 : ℚ) ^ (20 : ℤ) ≤ 10 ^ d.exponent :=
        zpow_le_zpow_right₀ (by norm_num) (by omega)
      have hOne : (1 : ℚ) ≤ d.coefficient := by
        exact_mod_cast Nat.one_le_iff_ne_zero.mpr hCoefficient
      have hValue : (10 : ℚ) ^ d.exponent ≤ d.value :=
        le_mul_of_one_le_left (ten_zpow_pos _).le hOne
      have hBound : (2 : ℚ) ^ 64 < 10 ^ (20 : ℤ) := by norm_num
      exact absurd h (not_lt.mpr (by linarith))
    · split
      · rfl
      · rw [← value_eq_div] at h
        exact Binary64.isFinite_ofQuotient (by positivity) (by positivity) h

end Decimal

end QuantumCircuit
