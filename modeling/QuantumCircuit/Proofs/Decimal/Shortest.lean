import QuantumCircuit.Proofs.Decimal.Nearest

/-!
# The shortest decimal number

The search for the shortest decimal number walks through finer and finer decimal grids and
asks on each of them whether a point lies in the reading interval.  This file shows that its
answer is near to the binary number in the sense of `Binary64.Nears`, whatever grid the
search ends on:

* a point that the search accepts is near (`readable?_nears`);
* if no point was accepted, the nearest point of the finest grid is taken, and seventeen
  digits are enough for it to be near (`nearest_nears`).

Together with `Decimal.toBinary64_eq` this makes printing followed by reading the identity.
-/

namespace QuantumCircuit
namespace ReadingInterval

variable (interval : ReadingInterval) (x : Binary64)

/-! ### Grid points as rational numbers -/

theorem onGrid_def (m : ℕ) (k : ℤ) :
    interval.onGrid m k =
      (m * 2 ^ interval.exponent.toNat * 10 ^ (-k).toNat,
        2 ^ (-interval.exponent).toNat * 10 ^ k.toNat) := rfl

/-- The parts of `onGrid` form the quotient of a multiple of the unit by a power of ten. -/
theorem onGrid_div (m : ℕ) (k : ℤ) :
    ((interval.onGrid m k).1 : ℚ) / (interval.onGrid m k).2 =
      m * 2 ^ interval.exponent / 10 ^ k := by
  have hTwo := zpow_eq_div 2 (by norm_num) interval.exponent
  have hTen := zpow_eq_div 10 (by norm_num) k
  push_cast at hTwo hTen
  simp only [onGrid_def]
  push_cast
  rw [hTwo, hTen]
  field_simp

theorem onGrid_pos (m : ℕ) (k : ℤ) : 0 < (interval.onGrid m k).2 := by
  simp only [onGrid_def]
  positivity

/-- The denominator does not depend on the multiple. -/
theorem onGrid_snd (m n : ℕ) (k : ℤ) : (interval.onGrid m k).2 = (interval.onGrid n k).2 := rfl

theorem onGrid_le_iff (m n : ℕ) (k : ℤ) :
    (interval.onGrid m k).1 ≤ n * (interval.onGrid m k).2 ↔
      (m : ℚ) * 2 ^ interval.exponent ≤ n * 10 ^ k := by
  have hPos : (0 : ℚ) < (interval.onGrid m k).2 := by exact_mod_cast interval.onGrid_pos m k
  rw [← div_le_iff₀ (ten_zpow_pos k), ← onGrid_div, div_le_iff₀ hPos]
  exact_mod_cast Iff.rfl

theorem le_onGrid_iff (m n : ℕ) (k : ℤ) :
    n * (interval.onGrid m k).2 ≤ (interval.onGrid m k).1 ↔
      (n : ℚ) * 10 ^ k ≤ m * 2 ^ interval.exponent := by
  have hPos : (0 : ℚ) < (interval.onGrid m k).2 := by exact_mod_cast interval.onGrid_pos m k
  rw [← le_div_iff₀ (ten_zpow_pos k), ← onGrid_div, le_div_iff₀ hPos]
  exact_mod_cast Iff.rfl

/-! ### Accepted points -/

/-- The ends of the reading interval of a positive number. -/
theorem ofBinary64_lower (hPos : 0 < x.magnitude) :
    ((ofBinary64 x).lower : ℚ) * 2 ^ (ofBinary64 x).exponent =
      (x.units - x.reachBelow) * 2 ^ x.place := by
  have hUnits := Binary64.units_pos hPos
  have hQuarter : (2 : ℚ) ^ (x.place - 2) = 2 ^ x.place / 4 := by
    rw [zpow_sub₀ (by norm_num)]; norm_num
  simp only [ofBinary64, Binary64.reachBelow, hQuarter]
  split
  · rw [Nat.cast_sub (by omega)]; push_cast; ring
  · rw [Nat.cast_sub (by omega)]; push_cast; ring

theorem ofBinary64_upper :
    ((ofBinary64 x).upper : ℚ) * 2 ^ (ofBinary64 x).exponent =
      (x.units + 1 / 2) * 2 ^ x.place := by
  have hQuarter : (2 : ℚ) ^ (x.place - 2) = 2 ^ x.place / 4 := by
    rw [zpow_sub₀ (by norm_num)]; norm_num
  simp only [ofBinary64, hQuarter]
  push_cast
  ring

theorem ofBinary64_value :
    ((ofBinary64 x).value : ℚ) * 2 ^ (ofBinary64 x).exponent = x.units * 2 ^ x.place := by
  have hQuarter : (2 : ℚ) ^ (x.place - 2) = 2 ^ x.place / 4 := by
    rw [zpow_sub₀ (by norm_num)]; norm_num
  simp only [ofBinary64, hQuarter]
  push_cast
  ring

/-- A point of a grid that the interval covers is near to the number. -/
theorem covers_nears {n : ℕ} {k : ℤ} (hPos : 0 < x.magnitude)
    (h : (ofBinary64 x).covers n k = true) : x.Nears (⟨n, k⟩ : Decimal).value := by
  have hLower := ofBinary64_lower x hPos
  have hUpper := ofBinary64_upper x
  unfold covers at h
  dsimp only at h
  rw [onGrid_snd _ _ (ofBinary64 x).upper] at h
  -- the ends of the interval belong to it exactly if the number of units is even
  split at h
  · rename_i hClosed
    have hEven : x.units % 2 = 0 := by simpa [ofBinary64] using hClosed
    simp only [Bool.and_eq_true, decide_eq_true_eq] at h
    obtain ⟨hLow, hHigh⟩ := h
    rw [onGrid_snd _ _ (ofBinary64 x).lower, onGrid_le_iff, hLower] at hLow
    rw [le_onGrid_iff, hUpper] at hHigh
    exact ⟨hLow, hHigh, fun hOdd => by omega⟩
  · simp only [Bool.and_eq_true, decide_eq_true_eq] at h
    obtain ⟨hLow, hHigh⟩ := h
    rw [onGrid_snd _ _ (ofBinary64 x).lower, ← not_le, le_onGrid_iff, hLower, not_le] at hLow
    rw [← not_le, onGrid_le_iff, hUpper, not_le] at hHigh
    exact ⟨hLow.le, hHigh.le, fun _ => ⟨hLow, hHigh⟩⟩

/-- What the search accepts on a grid is near to the number. -/
theorem readable?_nears {tie : Tie} {n : ℕ} {k : ℤ} (hPos : 0 < x.magnitude)
    (h : (ofBinary64 x).readable? tie k = some n) : x.Nears (⟨n, k⟩ : Decimal).value := by
  unfold readable? at h
  dsimp only at h
  split at h
  · rename_i hBelow hAbove
    cases h
    unfold nearest
    dsimp only
    rcases nearestNatural_cases tie ((ofBinary64 x).onGrid (ofBinary64 x).value k).1
      ((ofBinary64 x).onGrid (ofBinary64 x).value k).2 with hLower | hUpper
    · rw [hLower]; exact covers_nears x hPos hBelow
    · rw [hUpper]; exact covers_nears x hPos hAbove
  · rename_i hBelow _
    cases h
    exact covers_nears x hPos hBelow
  · rename_i _ hAbove
    cases h
    exact covers_nears x hPos hAbove
  · cases h

/-! ### The leading power of ten -/

/-- A thousandth part of `100000` more in the exponent of two makes up for the error of
`30103 / 100000` as the logarithm of two. -/
theorem ten_pow_le_two_pow : 10 ^ 30103 ≤ 2 ^ 100001 := by decide +kernel

theorem two_pow_le_ten_pow : 2 ^ 100000 ≤ 10 ^ 30103 := by decide +kernel

/-- The estimate of the leading power of ten exceeds it by one at most. -/
theorem ten_zpow_estimate_le {l : ℤ} (hBound : l ≤ 100000) :
    (10 : ℚ) ^ (l * 30103 / 100000) ≤ 2 ^ (l + 1) := by
  have hTen : (10 : ℚ) ^ (30103 : ℕ) ≤ 2 ^ (100001 : ℕ) := by exact_mod_cast ten_pow_le_two_pow
  have hTwo : (2 : ℚ) ^ (100000 : ℕ) ≤ 10 ^ (30103 : ℕ) := by exact_mod_cast two_pow_le_ten_pow
  have hEstimate : l * 30103 / 100000 * (100000 : ℕ) ≤ (30103 : ℕ) * l := by omega
  -- compare the powers with exponent `100000` of both sides
  rw [← pow_le_pow_iff_left₀ (ten_zpow_pos _).le (two_zpow_pos _).le
    (show 100000 ≠ 0 by norm_num), ← zpow_natCast, ← zpow_natCast, ← zpow_mul, ← zpow_mul]
  calc
    (10 : ℚ) ^ (l * 30103 / 100000 * ((100000 : ℕ) : ℤ)) ≤ 10 ^ (((30103 : ℕ) : ℤ) * l) :=
      zpow_le_zpow_right₀ (by norm_num) hEstimate
    _ ≤ 2 ^ ((l + 1) * ((100000 : ℕ) : ℤ)) := by
      rw [zpow_mul, zpow_natCast]
      obtain hNonneg | hNegative := le_or_gt 0 l
      · calc
          ((10 : ℚ) ^ (30103 : ℕ)) ^ l ≤ (2 ^ (100001 : ℕ)) ^ l :=
            zpow_le_zpow_left₀ hNonneg (by positivity) hTen
          _ ≤ 2 ^ ((l + 1) * ((100000 : ℕ) : ℤ)) := by
            rw [← zpow_natCast, ← zpow_mul]
            exact zpow_le_zpow_right₀ (by norm_num) (by push_cast; omega)
      · calc
          ((10 : ℚ) ^ (30103 : ℕ)) ^ l ≤ (2 ^ (100000 : ℕ)) ^ l := by
            rw [← neg_neg l, zpow_neg, zpow_neg ((2 : ℚ) ^ (100000 : ℕ))]
            apply inv_anti₀ (by positivity)
            exact zpow_le_zpow_left₀ (by omega) (by positivity) hTwo
          _ ≤ 2 ^ ((l + 1) * ((100000 : ℕ) : ℤ)) := by
            rw [← zpow_natCast, ← zpow_mul]
            exact zpow_le_zpow_right₀ (by norm_num) (by push_cast; omega)

/-- The value of the interval is at least the power of ten that the search begins with. -/
theorem ten_zpow_magnitude_le (hValue : 0 < interval.value)
    (hSmall : (interval.value.log2 : ℤ) + interval.exponent ≤ 100000) :
    (10 : ℚ) ^ interval.magnitude ≤ interval.value * 2 ^ interval.exponent := by
  have hLog : (2 : ℚ) ^ ((interval.value.log2 : ℤ) + interval.exponent) ≤
      interval.value * 2 ^ interval.exponent := by
    rw [zpow_add₀ (by norm_num)]
    exact mul_le_mul_of_nonneg_right (log2_spec hValue).1 (two_zpow_pos _).le
  rw [magnitude]
  dsimp only
  -- either one of the three candidates is reached, or the estimate is too large by three
  generalize hLead : (interval.value.log2 : ℤ) + interval.exponent = lead at hSmall hLog ⊢
  cases hFound : [lead * 30103 / 100000 + 1, lead * 30103 / 100000,
      lead * 30103 / 100000 - 1].find? fun e =>
        decide ((interval.onGrid interval.value e).2 ≤ (interval.onGrid interval.value e).1) with
  | some e =>
      have hReached := List.find?_some hFound
      rw [decide_eq_true_eq, ← one_mul (interval.onGrid interval.value e).2, le_onGrid_iff,
        Nat.cast_one, one_mul] at hReached
      exact hReached
  | none =>
      have hEstimate := ten_zpow_estimate_le hSmall
      rw [zpow_add_one₀ (by norm_num)] at hEstimate
      simp only [Option.getD_none]
      rw [zpow_sub₀ (by norm_num), div_le_iff₀ (by norm_num)]
      have hPos := two_zpow_pos lead
      norm_num
      linarith

/-! ### Seventeen digits -/

/-- Rounding moves a quotient by one half at most. -/
theorem abs_nearestNatural_sub_le (tie : Tie) {n d : ℕ} (hd : 0 < d) :
    |(nearestNatural tie n d : ℚ) - n / d| ≤ 1 / 2 := by
  have hDenominator : (0 : ℚ) < d := by exact_mod_cast hd
  have hDivision : (d : ℚ) * (n / d : ℕ) + (n % d : ℕ) = n := by
    exact_mod_cast Nat.div_add_mod n d
  have hQuotient : (n : ℚ) / d = (n / d : ℕ) + ((n % d : ℕ) : ℚ) / d := by
    rw [eq_comm, ← hDivision]
    field_simp
  have hNonneg : (0 : ℚ) ≤ ((n % d : ℕ) : ℚ) / d := by positivity
  have hLess : ((n % d : ℕ) : ℚ) / d ≤ 1 := by
    rw [div_le_one hDenominator]
    exact_mod_cast (Nat.mod_lt n hd).le
  have hHalf : 2 * (n % d) ≤ d → ((n % d : ℕ) : ℚ) / d ≤ 1 / 2 := by
    intro h
    rw [div_le_iff₀ hDenominator]
    have h' : (2 : ℚ) * (n % d : ℕ) ≤ d := by exact_mod_cast h
    linarith
  have hHalf' : d ≤ 2 * (n % d) → 1 / 2 ≤ ((n % d : ℕ) : ℚ) / d := by
    intro h
    rw [le_div_iff₀ hDenominator]
    have h' : (d : ℚ) ≤ 2 * (n % d : ℕ) := by exact_mod_cast h
    linarith
  rw [hQuotient, abs_le]
  rcases Nat.lt_trichotomy (2 * (n % d)) d with hLt | hSame | hGt
  · have hNear := hHalf hLt.le
    have hDown : nearestNatural tie n d = n / d := by
      simp [nearestNatural, roundsUp, Nat.compare_eq_lt.mpr hLt]
    rw [hDown]
    constructor <;> linarith
  · -- both neighbours are equally near, so it does not matter which one is taken
    have hNear := hHalf hSame.le
    have hFar := hHalf' hSame.ge
    rcases nearestNatural_cases tie n d with hDown | hUp
    · rw [hDown]
      constructor <;> linarith
    · rw [hUp]
      push_cast
      constructor <;> linarith
  · have hNear := hHalf' hGt.le
    have hUp : nearestNatural tie n d = n / d + 1 := by
      simp [nearestNatural, roundsUp, Nat.compare_eq_gt.mpr hGt]
    rw [hUp]
    push_cast
    constructor <;> linarith

/-- The number of units is so small that sixteen more digits than the leading one make the grid
finer than the reading interval. -/
theorem units_lt_reach (x : Binary64) : (x.units : ℚ) < 2 * 10 ^ 16 * x.reachBelow := by
  unfold Binary64.reachBelow
  split
  · rename_i hPower
    have hUnits : x.units = 2 ^ 52 := by
      rw [Binary64.units_def, if_neg (by omega), hPower.1, Nat.zero_add]
    rw [hUnits]
    norm_num
  · have hUnits : (x.units : ℚ) < 2 ^ 53 := by exact_mod_cast x.units_lt
    linarith [show (2 : ℚ) ^ 53 < 2 * 10 ^ 16 * (1 / 2) by norm_num]

/-- The nearest point of the grid of seventeen digits is near to the number. -/
theorem nearest_nears (tie : Tie) {k : ℤ}
    (hGrid : (10 : ℚ) ^ (k + 16) ≤ x.units * 2 ^ x.place) :
    x.Nears (⟨(ofBinary64 x).nearest tie k, k⟩ : Decimal).value := by
  have hStep := ten_zpow_pos k
  have hPower := two_zpow_pos x.place
  have hReach := x.reachBelow_le_half
  have hUnits := units_lt_reach x
  have hGridPos := (ofBinary64 x).onGrid_pos (ofBinary64 x).value k
  have hClose := @abs_nearestNatural_sub_le tie ((ofBinary64 x).onGrid (ofBinary64 x).value k).1
    _ hGridPos
  rw [onGrid_div, ofBinary64_value, abs_le] at hClose
  obtain ⟨hBelow, hAbove⟩ := hClose
  -- half a step of the grid is less than the reach of the interval
  have hFine : (10 : ℚ) ^ k / 2 < x.reachBelow * 2 ^ x.place := by
    rw [zpow_add₀ (by norm_num)] at hGrid
    have hSixteen : (10 : ℚ) ^ (16 : ℤ) = 10 ^ 16 := by norm_num
    rw [hSixteen] at hGrid
    nlinarith
  set point : ℚ := ((nearestNatural tie ((ofBinary64 x).onGrid (ofBinary64 x).value k).1
    ((ofBinary64 x).onGrid (ofBinary64 x).value k).2 : ℕ) : ℚ) with hPoint
  have hValue : (⟨(ofBinary64 x).nearest tie k, k⟩ : Decimal).value = point * 10 ^ k := rfl
  have hQuotient :
      (x.units : ℚ) * 2 ^ x.place / 10 ^ k * 10 ^ k = x.units * 2 ^ x.place :=
    div_mul_cancel₀ _ hStep.ne'
  have hLower : x.units * 2 ^ x.place - 10 ^ k / 2 ≤ point * 10 ^ k := by nlinarith
  have hUpper : point * 10 ^ k ≤ x.units * 2 ^ x.place + 10 ^ k / 2 := by nlinarith
  have hLower' : (x.units - x.reachBelow) * 2 ^ x.place < point * 10 ^ k := by linarith
  have hUpper' : point * 10 ^ k < (x.units + 1 / 2) * 2 ^ x.place := by nlinarith
  rw [hValue]
  exact ⟨hLower'.le, hUpper'.le, fun _ => ⟨hLower', hUpper'⟩⟩

end ReadingInterval

/-! ### The result of the search -/

namespace Decimal

theorem value_dropZeros (bound : ℕ) (d : Decimal) : (dropZeros bound d).value = d.value := by
  induction bound generalizing d with
  | zero => rfl
  | succ bound ih =>
      rw [dropZeros]
      split
      · rename_i hZero
        have hCoefficient : (d.coefficient : ℚ) = (d.coefficient / 10 : ℕ) * 10 := by
          exact_mod_cast (Nat.div_mul_cancel (Nat.dvd_of_mod_eq_zero hZero)).symm
        rw [ih, value, value, hCoefficient, zpow_add_one₀ (by norm_num)]
        push_cast
        ring
      · rfl

/-- Zeros at the end of the coefficient move into the exponent. -/
theorem value_trimmed (d : Decimal) : d.trimmed.value = d.value := by
  rw [trimmed]
  split
  · rename_i hZero
    simp [value, hZero]
  · exact value_dropZeros _ d

/-- The shortest decimal number is near to the binary number. -/
theorem shortest_nears (tie : Tie) {x : Binary64} (hFinite : x.isFinite = true)
    (hPos : 0 < x.magnitude) : x.Nears (shortest tie x).value := by
  have hUnits := Binary64.units_pos hPos
  have hPlace := Binary64.place_le hFinite
  have hBound := x.units_lt
  have hValue : 0 < (ReadingInterval.ofBinary64 x).value := by
    simp only [ReadingInterval.ofBinary64]; omega
  have hLog : (ReadingInterval.ofBinary64 x).value.log2 < 55 := by
    rw [Nat.log2_lt (by omega)]
    simp only [ReadingInterval.ofBinary64]; omega
  have hMagnitude := (ReadingInterval.ofBinary64 x).ten_zpow_magnitude_le hValue (by
    simp only [ReadingInterval.ofBinary64] at hLog ⊢; omega)
  rw [ReadingInterval.ofBinary64_value] at hMagnitude
  rw [shortest, if_neg (by omega), ReadingInterval.shortest, value_trimmed]
  -- a shorter grid has a point in the interval, or that of seventeen digits is fine enough
  generalize hFound : (List.range 17).findSome? _ = found
  cases found with
  | some d =>
      rw [Option.getD_some]
      obtain ⟨more, -, hMore⟩ := List.exists_of_findSome?_eq_some hFound
      obtain ⟨n, hRead, rfl⟩ := Option.map_eq_some_iff.mp hMore
      exact ReadingInterval.readable?_nears x hPos hRead
  | none =>
      rw [Option.getD_none]
      apply ReadingInterval.nearest_nears
      rwa [sub_add_cancel]

/-- **Printing and reading.**  The shortest decimal number of a finite number without a sign is
read as that number. -/
theorem toBinary64_of_value_eq_shortest {tie : Tie} {x : Binary64} {d : Decimal}
    (hFinite : x.isFinite = true) (hSign : x.isNegative = false)
    (h : d.value = (shortest tie x).value) : d.toBinary64 = x := by
  rcases Nat.eq_zero_or_pos x.magnitude with hZero | hPos
  · have hUnits : x.units = 0 := by
      have := x.magnitude_eq; omega
    have hShortest : shortest tie x = ⟨0, 0⟩ := by
      rw [shortest, if_pos (by simp [ReadingInterval.ofBinary64, hUnits])]
    have hCoefficient : d.coefficient = 0 := by
      have hValue : (d.coefficient : ℚ) * 10 ^ d.exponent = 0 := by
        rw [← value, h, hShortest]; simp [value]
      rcases mul_eq_zero.mp hValue with hZero' | hPower
      · exact_mod_cast hZero'
      · exact absurd hPower (ten_zpow_pos _).ne'
    rw [toBinary64_def, if_pos hCoefficient, ← Binary64.eq_of_magnitude hSign, hZero]
    rfl
  · apply toBinary64_eq hFinite hSign hPos
    rw [h]
    exact shortest_nears tie hFinite hPos

end Decimal
end QuantumCircuit
