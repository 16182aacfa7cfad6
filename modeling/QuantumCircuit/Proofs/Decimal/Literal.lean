import QuantumCircuit.Expr.Printing
import QuantumCircuit.Proofs.Decimal.Shortest
import QuantumCircuit.Token.Piece

/-!
# The text of a number and its token

A number is written as digits, perhaps with a point and a fraction, and perhaps with an
exponent.  `NumberLayout` names the three parts, and the file follows one layout on its two
ways back:

* `read_text` gives the decimal number that is read from the layout;
* `cutNumber_text` cuts exactly the layout off a longer text, unless what follows could
  belong to a number.

Both meet in `Expr.reading_literalText`: a finite number without a sign is printed as one piece,
and what the piece denotes is the number again.
-/

namespace QuantumCircuit

/-! ### Digits -/

namespace Decimal

theorem isDigit_of_mem_digitsOf {n : ℕ} {c : Char} (h : c ∈ digitsOf n) : c.isDigit = true :=
  Nat.isDigit_of_mem_toDigits (by norm_num) (by norm_num) h

theorem digitsOf_ne_nil (n : ℕ) : digitsOf n ≠ [] := Nat.toDigits_ne_nil

theorem ofDigits_eq (digits : List Char) : ofDigits digits = Nat.ofDigitChars 10 digits 0 := by
  rw [Nat.ofDigitChars_eq_foldl]
  rfl

@[simp]
theorem ofDigits_digitsOf (n : ℕ) : ofDigits (digitsOf n) = n := by
  rw [ofDigits_eq]
  exact Nat.ofDigitChars_ten_toDigits

/-- Zeros at the end multiply by a power of ten. -/
theorem ofDigits_append_zeros (digits : List Char) (count : ℕ) :
    ofDigits (digits ++ List.replicate count '0') = ofDigits digits * 10 ^ count := by
  rw [ofDigits_eq, ofDigits_eq, Nat.ofDigitChars_append, Nat.ofDigitChars_replicate_zero, mul_comm]

/-- Zeros in front change nothing. -/
theorem ofDigits_zeros_append (count : ℕ) (digits : List Char) :
    ofDigits (List.replicate count '0' ++ digits) = ofDigits digits := by
  rw [ofDigits_eq, ofDigits_eq, Nat.ofDigitChars_append, Nat.ofDigitChars_replicate_zero,
    Nat.mul_zero]

/-- The text of a word of any width is that of its digits. -/
theorem toList_toString_nat (n : ℕ) : (toString n).toList = digitsOf n := by
  simp [digitsOf]

theorem toList_toString_int (k : ℤ) :
    (toString k).toList = (if k < 0 then ['-'] else []) ++ digitsOf k.natAbs := by
  rw [Int.toString_eq_repr]
  cases k with
  | ofNat n =>
      simp [Int.repr, digitsOf]
  | negSucc n =>
      have hNegative : Int.negSucc n < 0 := Int.negSucc_lt_zero n
      simp [Int.repr, digitsOf, hNegative]

end Decimal

/-! ### Layouts -/

/-- The parts of the text of a number. -/
structure NumberLayout where
  whole : List Char
  /-- The digits behind the point, if there is a point. -/
  fraction : Option (List Char)
  exponent : Option ℤ

/-- The text cannot go on a number: it begins neither with a digit nor with a point nor with
the letter of an exponent. -/
def EndsNumber (rest : List Char) : Prop :=
  ∀ c, rest.head? = some c → c.isDigit = false ∧ c ≠ '.' ∧ c ≠ 'e' ∧ c ≠ 'E'

namespace NumberLayout

/-- The point and what stands behind it. -/
def fractionText : Option (List Char) → List Char
  | none => []
  | some digits => '.' :: digits

/-- The letter of the exponent and what stands behind it. -/
def exponentText : Option ℤ → List Char
  | none => []
  | some k => 'e' :: (toString k).toList

/-- The text of a layout. -/
def text (layout : NumberLayout) : List Char :=
  layout.whole ++ (fractionText layout.fraction ++ exponentText layout.exponent)

/-- A layout has a digit in front, and holds nothing but digits there and in its fraction. -/
structure WellFormed (layout : NumberLayout) : Prop where
  whole_ne_nil : layout.whole ≠ []
  whole_digits : ∀ c ∈ layout.whole, c.isDigit = true
  fraction_digits : ∀ digits, layout.fraction = some digits → ∀ c ∈ digits, c.isDigit = true

/-- The pattern of a layout: an integer has neither a point nor an exponent. -/
def pattern (layout : NumberLayout) : Pattern :=
  if layout.fraction = none ∧ layout.exponent = none then .integer else .real

/-- The decimal number of a layout. -/
def decimal (layout : NumberLayout) : Decimal :=
  ⟨Decimal.ofDigits (layout.whole ++ layout.fraction.getD []),
    layout.exponent.getD 0 - (layout.fraction.getD []).length⟩

/-- Splitting a text behind a run of digits. -/
theorem span_digits {digits rest : List Char} (hDigits : ∀ c ∈ digits, c.isDigit = true)
    (hRest : ∀ c, rest.head? = some c → c.isDigit = false) :
    (digits ++ rest).takeWhile Char.isDigit = digits ∧
      (digits ++ rest).dropWhile Char.isDigit = rest := by
  rw [List.takeWhile_append_of_pos hDigits, List.dropWhile_append_of_pos hDigits]
  cases rest with
  | nil => simp
  | cons c more =>
      have hHead := hRest c rfl
      simp [hHead]

/-- The text of an exponent begins with a letter. -/
theorem exponentText_head {k : Option ℤ} {rest : List Char} {c : Char}
    (h : (exponentText k ++ rest).head? = some c) :
    c = 'e' ∨ k = none ∧ rest.head? = some c := by
  cases k with
  | none => exact Or.inr ⟨rfl, h⟩
  | some k =>
      simp only [exponentText, List.cons_append, List.head?_cons, Option.some.injEq] at h
      exact Or.inl h.symm

theorem exponentText_not_digit {k : Option ℤ} {rest : List Char} (hEnds : EndsNumber rest)
    (c : Char) (h : (exponentText k ++ rest).head? = some c) : c.isDigit = false := by
  rcases exponentText_head h with rfl | ⟨-, hRest⟩
  · rfl
  · exact (hEnds c hRest).1

/-- A digit is no sign. -/
theorem splitSign_digit {c : Char} (hDigit : c.isDigit = true) (rest : List Char) :
    splitSign (c :: rest) = ([], c :: rest) := by
  unfold splitSign
  split
  · rename_i h; cases h; simp at hDigit
  · rename_i h; cases h; simp at hDigit
  · rfl

theorem readExponent_digit {c : Char} (hDigit : c.isDigit = true) (letter : Char)
    (rest : List Char) :
    Decimal.readExponent (letter :: c :: rest) = Decimal.ofDigits (c :: rest) := by
  unfold Decimal.readExponent
  split
  · rename_i h; cases h
  · rename_i h; cases h; simp at hDigit
  · rename_i h; cases h; simp at hDigit
  · rename_i h; cases h; rfl

/-- An exponent is split off as a whole. -/
theorem splitExponent_exponentText (k : Option ℤ) {rest : List Char} (hEnds : EndsNumber rest) :
    splitExponent (exponentText k ++ rest) = (exponentText k, rest) := by
  cases k with
  | none =>
      cases rest with
      | nil => rfl
      | cons c more =>
          obtain ⟨-, -, hSmall, hLarge⟩ := hEnds c rfl
          simp [exponentText, splitExponent, hSmall, hLarge]
  | some k =>
      have hDigits : ∀ c ∈ Decimal.digitsOf k.natAbs, c.isDigit = true :=
        fun c hc => Decimal.isDigit_of_mem_digitsOf hc
      obtain ⟨hTake, hDrop⟩ := span_digits hDigits fun c hc => (hEnds c hc).1
      have hNonempty := Decimal.digitsOf_ne_nil k.natAbs
      have hSign : splitSign ((toString k).toList ++ rest) =
          ((if k < 0 then ['-'] else []), Decimal.digitsOf k.natAbs ++ rest) := by
        rw [Decimal.toList_toString_int]
        split
        · rfl
        · cases hFirst : Decimal.digitsOf k.natAbs with
          | nil => exact absurd hFirst hNonempty
          | cons c more => exact splitSign_digit (hDigits c (by simp [hFirst])) (more ++ rest)
      simp only [exponentText, List.cons_append, splitExponent, hSign, hTake, hDrop]
      rw [if_pos (Or.inl trivial), if_neg hNonempty, Decimal.toList_toString_int]

/-- What is read from the text of an exponent. -/
theorem readExponent_exponentText (k : Option ℤ) :
    Decimal.readExponent (exponentText k) = k.getD 0 := by
  cases k with
  | none => rfl
  | some k =>
      simp only [exponentText, Decimal.toList_toString_int, Option.getD_some]
      split
      · simp only [List.cons_append, List.nil_append, Decimal.readExponent,
          Decimal.ofDigits_digitsOf]
        omega
      · cases hFirst : Decimal.digitsOf k.natAbs with
        | nil => exact absurd hFirst (Decimal.digitsOf_ne_nil _)
        | cons c more =>
            have hDigit : c.isDigit = true :=
              Decimal.isDigit_of_mem_digitsOf (n := k.natAbs) (by simp [hFirst])
            rw [List.nil_append, readExponent_digit hDigit, ← hFirst, Decimal.ofDigits_digitsOf]
            omega

/-- Reading and cutting a number whose digits no point follows. -/
theorem read_of_not_point {chars behind : List Char}
    (hDrop : chars.dropWhile Char.isDigit = behind) (hPoint : behind.head? ≠ some '.') :
    Decimal.read chars =
      ⟨Decimal.ofDigits (chars.takeWhile Char.isDigit), Decimal.readExponent behind⟩ := by
  unfold Decimal.read
  dsimp only
  rw [hDrop]
  split
  · exact absurd rfl hPoint
  · rfl

theorem cutNumber_of_not_point {chars behind exponent rest : List Char}
    (hDrop : chars.dropWhile Char.isDigit = behind) (hPoint : behind.head? ≠ some '.')
    (hSplit : splitExponent behind = (exponent, rest)) :
    cutNumber chars =
      if exponent = [] then (⟨.integer, chars.takeWhile Char.isDigit⟩, behind)
      else (⟨.real, chars.takeWhile Char.isDigit ++ exponent⟩, rest) := by
  unfold cutNumber
  dsimp only
  rw [hDrop]
  split
  · exact absurd rfl hPoint
  · rw [hSplit]

variable {layout : NumberLayout}

/-- **Reading a layout.**  The number is that of all digits, scaled by the exponent and by the
length of the fraction. -/
theorem read_text (hLayout : layout.WellFormed) : Decimal.read layout.text = layout.decimal := by
  obtain ⟨-, hWhole, hFraction⟩ := hLayout
  obtain ⟨whole, fraction, exponent⟩ := layout
  have hEnds : EndsNumber [] := by simp [EndsNumber]
  cases fraction with
  | none =>
      have hHead := exponentText_not_digit (k := exponent) hEnds
      rw [List.append_nil] at hHead
      obtain ⟨hTake, hDrop⟩ := span_digits hWhole hHead
      have hPoint : (exponentText exponent).head? ≠ some '.' := by
        cases exponent <;> simp [exponentText]
      simp only [text, fractionText, List.nil_append]
      rw [read_of_not_point hDrop hPoint, hTake, readExponent_exponentText]
      simp [decimal]
  | some fraction =>
      have hHead := exponentText_not_digit (k := exponent) hEnds
      rw [List.append_nil] at hHead
      have hPoint : ∀ c, ('.' :: (fraction ++ exponentText exponent)).head? = some c →
          c.isDigit = false := by simp
      obtain ⟨hTake, hDrop⟩ := span_digits hWhole hPoint
      obtain ⟨hTake', hDrop'⟩ := span_digits (hFraction fraction rfl) hHead
      have hRead := readExponent_exponentText exponent
      simp only [Decimal.read, text, fractionText, List.cons_append, hTake, hDrop, hTake', hDrop']
      simp [decimal, hRead]

/-- **Cutting a layout.**  In front of a text that cannot go on a number, exactly the layout is
cut off. -/
theorem cutNumber_text (hLayout : layout.WellFormed) {rest : List Char}
    (hEnds : EndsNumber rest) :
    cutNumber (layout.text ++ rest) = (⟨layout.pattern, layout.text⟩, rest) := by
  obtain ⟨-, hWhole, hFraction⟩ := hLayout
  obtain ⟨whole, fraction, exponent⟩ := layout
  have hSplit := splitExponent_exponentText exponent hEnds
  cases fraction with
  | none =>
      obtain ⟨hTake, hDrop⟩ := span_digits hWhole (exponentText_not_digit (k := exponent) hEnds)
      have hPoint : (exponentText exponent ++ rest).head? ≠ some '.' := by
        intro hHead
        rcases exponentText_head hHead with hLetter | ⟨-, hRest⟩
        · simp at hLetter
        · exact (hEnds '.' hRest).2.1 rfl
      simp only [text, fractionText, List.nil_append, List.append_assoc]
      rw [cutNumber_of_not_point hDrop hPoint hSplit, hTake]
      cases exponent <;> simp [exponentText, pattern]
  | some fraction =>
      have hPoint : ∀ c, ('.' :: (fraction ++ (exponentText exponent ++ rest))).head? = some c →
          c.isDigit = false := by simp
      obtain ⟨hTake, hDrop⟩ := span_digits hWhole hPoint
      obtain ⟨hTake', hDrop'⟩ := span_digits (hFraction fraction rfl)
        (exponentText_not_digit (k := exponent) hEnds)
      simp only [cutNumber, text, fractionText, List.cons_append, List.append_assoc, hTake, hDrop,
        hTake', hDrop', hSplit]
      simp [pattern]

/-- No other pattern applies to a text that begins with a digit. -/
theorem cut?_of_isDigit {c : Char} (hDigit : c.isDigit = true) (rest : List Char) :
    cut? (c :: rest) = some (cutNumber (c :: rest)) := by
  have hNotBlank : isBlank c = false := by
    by_contra hBlank
    simp only [isBlank, Bool.not_eq_false, Bool.or_eq_true, decide_eq_true_eq] at hBlank
    rcases hBlank with (((rfl | rfl) | rfl) | rfl) | rfl <;> simp at hDigit
  have hNotAlpha : c.isAlpha = false := by
    by_contra hAlpha
    simp only [Char.isAlpha, Char.isUpper, Char.isLower, Char.isDigit, Bool.not_eq_false,
      Bool.or_eq_true, Bool.and_eq_true, decide_eq_true_eq] at hAlpha hDigit
    grind
  rw [cut?, if_neg (by simp [hNotBlank]), if_neg (by simp [hNotAlpha]), if_pos hDigit]

/-- A layout is cut off a text as a whole. -/
theorem cut?_text (hLayout : layout.WellFormed) {rest : List Char} (hEnds : EndsNumber rest) :
    cut? (layout.text ++ rest) = some (⟨layout.pattern, layout.text⟩, rest) := by
  have hCut := cutNumber_text hLayout hEnds
  obtain ⟨hNonempty, hDigits, -⟩ := hLayout
  cases hFirst : layout.whole with
  | nil => exact absurd hFirst hNonempty
  | cons c more =>
      have hDigit : c.isDigit = true := hDigits c (by simp [hFirst])
      have hText : layout.text =
          c :: (more ++ (fractionText layout.fraction ++ exponentText layout.exponent)) := by
        rw [text, hFirst, List.cons_append]
      rw [hText, List.cons_append] at hCut ⊢
      rw [cut?_of_isDigit hDigit, hCut]

end NumberLayout

/-! ### Printed decimal numbers -/

namespace NumberLayout

/-- The layout in full of digits of which the first one stands at `10 ^ power`. -/
def inFull (digits : List Char) (power : ℤ) : NumberLayout :=
  if power < 0 then ⟨['0'], some (List.replicate (-power - 1).toNat '0' ++ digits), none⟩
  else if digits.length ≤ power.toNat + 1 then
    ⟨digits ++ List.replicate (power.toNat + 1 - digits.length) '0', none, none⟩
  else ⟨digits.take (power.toNat + 1), some (digits.drop (power.toNat + 1)), none⟩

/-- The layout with one leading digit and an exponent. -/
def scientific (digits : List Char) (power : ℤ) : NumberLayout :=
  ⟨digits.take 1, if digits.drop 1 = [] then none else some (digits.drop 1), some power⟩

theorem text_inFull (digits : List Char) (power : ℤ) :
    (inFull digits power).text = (Decimal.inFull "" digits power).toList := by
  unfold inFull Decimal.inFull
  dsimp only
  split
  · simp [text, fractionText, exponentText]
  · split
    · simp [text, fractionText, exponentText]
    · simp [text, fractionText, exponentText]

theorem text_scientific (digits : List Char) (power : ℤ) :
    (scientific digits power).text = (Decimal.withExponent "" digits power).toList := by
  unfold scientific Decimal.withExponent
  cases digits.drop 1 with
  | nil => simp [text, fractionText, exponentText]
  | cons c more => simp [text, fractionText, exponentText]

theorem isDigit_of_mem_zeros {count : ℕ} {c : Char} (h : c ∈ List.replicate count '0') :
    c.isDigit = true := by
  rw [List.eq_of_mem_replicate h]
  rfl

variable {digits : List Char}

theorem inFull_wellFormed (hNonempty : digits ≠ []) (hDigits : ∀ c ∈ digits, c.isDigit = true)
    (power : ℤ) : (inFull digits power).WellFormed := by
  unfold inFull
  split
  · refine ⟨by simp, by simp, ?_⟩
    rintro _ ⟨⟩ c hc
    rcases List.mem_append.mp hc with hZero | hDigit
    · exact isDigit_of_mem_zeros hZero
    · exact hDigits c hDigit
  · split
    · refine ⟨by simp [hNonempty], ?_, by simp⟩
      intro c hc
      rcases List.mem_append.mp hc with hDigit | hZero
      · exact hDigits c hDigit
      · exact isDigit_of_mem_zeros hZero
    · refine ⟨by simp [hNonempty], fun c hc => hDigits c (List.mem_of_mem_take hc), ?_⟩
      rintro _ ⟨⟩ c hc
      exact hDigits c (List.mem_of_mem_drop hc)

theorem scientific_wellFormed (hNonempty : digits ≠ [])
    (hDigits : ∀ c ∈ digits, c.isDigit = true) (power : ℤ) :
    (scientific digits power).WellFormed := by
  refine ⟨by simp [scientific, hNonempty], fun c hc => hDigits c (List.mem_of_mem_take hc), ?_⟩
  intro fraction hFraction c hc
  simp only [scientific] at hFraction
  split at hFraction
  · cases hFraction
  · cases hFraction
    exact hDigits c (List.mem_of_mem_drop hc)

/-- Written in full, a decimal number keeps its value. -/
theorem value_inFull (d : Decimal) :
    (inFull (Decimal.digitsOf d.coefficient) d.leadingPower).decimal.value = d.value := by
  have hLength := List.length_pos_iff.mpr (Decimal.digitsOf_ne_nil d.coefficient)
  have hPower : d.leadingPower = d.exponent + (Decimal.digitsOf d.coefficient).length - 1 := rfl
  have hCoefficient := Decimal.ofDigits_digitsOf d.coefficient
  generalize Decimal.digitsOf d.coefficient = digits at hLength hPower hCoefficient ⊢
  unfold inFull
  split
  · -- zeros stand on both sides of the point, and the digits behind them
    rename_i hNegative
    have hZeros : Decimal.ofDigits (['0'] ++
        (List.replicate (-d.leadingPower - 1).toNat '0' ++ digits)) = d.coefficient := by
      rw [← List.append_assoc, ← hCoefficient]
      exact Decimal.ofDigits_zeros_append ((-d.leadingPower - 1).toNat + 1) digits
    have hExponent : (0 : ℤ) - ((List.replicate (-d.leadingPower - 1).toNat '0' ++
        digits).length : ℕ) = d.exponent := by
      rw [List.length_append, List.length_replicate]
      omega
    simp only [decimal, Option.getD_some, Option.getD_none, hZeros, hExponent]
  · split
    · -- the digits and zeros behind them stand in front of the point
      rename_i hNonneg hWhole
      have hExponent : d.exponent = ((d.leadingPower.toNat + 1 - digits.length : ℕ) : ℤ) := by
        omega
      simp only [decimal, Option.getD_none, List.append_nil, Decimal.ofDigits_append_zeros,
        hCoefficient, Decimal.value, hExponent, zpow_natCast]
      simp
    · -- the point stands among the digits
      rename_i hNonneg hPoint
      have hExponent : (0 : ℤ) - ((digits.drop (d.leadingPower.toNat + 1)).length : ℕ) =
          d.exponent := by
        rw [List.length_drop]
        omega
      simp only [decimal, Option.getD_some, Option.getD_none, List.take_append_drop, hCoefficient,
        hExponent]

/-- Written with an exponent, a decimal number keeps its value. -/
theorem value_scientific (d : Decimal) :
    (scientific (Decimal.digitsOf d.coefficient) d.leadingPower).decimal.value = d.value := by
  have hLength := List.length_pos_iff.mpr (Decimal.digitsOf_ne_nil d.coefficient)
  have hPower : d.leadingPower = d.exponent + (Decimal.digitsOf d.coefficient).length - 1 := rfl
  have hCoefficient := Decimal.ofDigits_digitsOf d.coefficient
  generalize Decimal.digitsOf d.coefficient = digits at hLength hPower hCoefficient ⊢
  have hFraction : (if digits.drop 1 = [] then none else some (digits.drop 1)).getD [] =
      digits.drop 1 := by
    split
    · rename_i hShort
      rw [hShort]
      rfl
    · rfl
  have hExponent : d.leadingPower - ((digits.drop 1).length : ℕ) = d.exponent := by
    rw [List.length_drop]
    omega
  simp only [scientific, decimal, hFraction, List.take_append_drop, hCoefficient,
    Option.getD_some, hExponent]

end NumberLayout

/-! ### Literals -/

namespace Expr

/-- The layout of the text of a finite number without a sign. -/
def literalLayout (x : Binary64) : NumberLayout :=
  let d := Decimal.shortest .upward x
  if largeMagnitude ≤ x.magnitude then
    .scientific (Decimal.digitsOf d.coefficient) d.leadingPower
  else .inFull (Decimal.digitsOf d.coefficient) d.leadingPower

theorem literalLayout_wellFormed (x : Binary64) : (literalLayout x).WellFormed := by
  unfold literalLayout
  dsimp only
  split
  · exact NumberLayout.scientific_wellFormed (Decimal.digitsOf_ne_nil _)
      (fun c hc => Decimal.isDigit_of_mem_digitsOf hc) _
  · exact NumberLayout.inFull_wellFormed (Decimal.digitsOf_ne_nil _)
      (fun c hc => Decimal.isDigit_of_mem_digitsOf hc) _

theorem value_literalLayout (x : Binary64) :
    (literalLayout x).decimal.value = (Decimal.shortest .upward x).value := by
  unfold literalLayout
  dsimp only
  split
  · exact NumberLayout.value_scientific _
  · exact NumberLayout.value_inFull _

variable {x : Binary64}

theorem toList_literalText (hFinite : x.isFinite = true) (hSign : x.isNegative = false) :
    (literalText x).toList = (literalLayout x).text := by
  have hNaN : x.isNaN = false := by simp [Binary64.isNaN, hFinite]
  unfold literalText literalLayout
  by_cases hLarge : largeMagnitude ≤ x.magnitude
  · simp [hFinite, hSign, hNaN, hLarge, NumberStyle.text, numberText, NumberStyle.decimal,
      NumberStyle.scientific, NumberLayout.text_scientific]
  · simp [hFinite, hSign, hNaN, hLarge, NumberStyle.text, numberText, NumberStyle.decimal,
      NumberStyle.plain, NumberLayout.text_inFull]

/-- A literal is read as the number that it was printed from. -/
theorem toBinary64_literalLayout (hFinite : x.isFinite = true) (hSign : x.isNegative = false) :
    (literalLayout x).decimal.toBinary64 = x :=
  Decimal.toBinary64_of_value_eq_shortest hFinite hSign (value_literalLayout x)

/-- A number below `10 ^ 15` is small enough for a word. -/
theorem shortest_value_lt (hFinite : x.isFinite = true) (hSmall : x.magnitude < largeMagnitude) :
    (Decimal.shortest .upward x).value < 2 ^ 64 := by
  rcases Nat.eq_zero_or_pos x.magnitude with hZero | hPos
  · have hUnits : x.units = 0 := by
      have := x.magnitude_eq
      omega
    have hShortest : Decimal.shortest .upward x = ⟨0, 0⟩ := by
      rw [Decimal.shortest, if_pos (by simp [ReadingInterval.ofBinary64, hUnits])]
    rw [hShortest]
    simp [Decimal.value]
  · have hNears := Decimal.shortest_nears .upward hFinite hPos
    have hUnits : (x.units : ℚ) + 1 ≤ 2 ^ 53 := by exact_mod_cast x.units_lt
    have hPlace : x.place ≤ -3 := by
      unfold Binary64.place
      rw [Binary64.storedExponent_def]
      unfold largeMagnitude at hSmall
      split <;> omega
    have hPower : (2 : ℚ) ^ x.place ≤ 2 ^ (-3 : ℤ) :=
      zpow_le_zpow_right₀ (by norm_num) hPlace
    calc
      (Decimal.shortest .upward x).value ≤ (x.units + 1 / 2) * 2 ^ x.place := hNears.upper
      _ ≤ 2 ^ 53 * 2 ^ (-3 : ℤ) :=
        mul_le_mul (by linarith) hPower (two_zpow_pos _).le (by norm_num)
      _ < 2 ^ 64 := by norm_num

/-- The token of a printed number: an integer if it has neither a point nor an exponent. -/
def literalToken (x : Binary64) : Token :=
  if (literalLayout x).pattern = .integer then
    .integer (UInt64.ofNat (literalLayout x).decimal.coefficient)
  else .real x

/-- A printed integer is a whole decimal number that fits into a word. -/
theorem literalLayout_integer (hFinite : x.isFinite = true)
    (hPattern : (literalLayout x).pattern = .integer) :
    (literalLayout x).fraction = none ∧ (literalLayout x).exponent = none ∧
      (literalLayout x).decimal.exponent = 0 ∧
        (literalLayout x).decimal.coefficient < 2 ^ 64 := by
  have hParts : (literalLayout x).fraction = none ∧ (literalLayout x).exponent = none := by
    by_contra hReal
    rw [NumberLayout.pattern, if_neg hReal] at hPattern
    cases hPattern
  obtain ⟨hFraction, hExponent⟩ := hParts
  have hWhole : (literalLayout x).decimal.exponent = 0 := by
    simp [NumberLayout.decimal, hFraction, hExponent]
  refine ⟨hFraction, hExponent, hWhole, ?_⟩
  have hSmall : x.magnitude < largeMagnitude := by
    by_contra hLarge
    rw [literalLayout, if_pos (by omega)] at hExponent
    cases hExponent
  have hValue := shortest_value_lt hFinite hSmall
  rw [← value_literalLayout, Decimal.value, hWhole, zpow_zero, mul_one] at hValue
  exact_mod_cast hValue

/-- **Printed numbers.**  In front of a text that cannot go on a number, a finite number without
a sign is printed as one piece. -/
theorem cut?_literalText (hFinite : x.isFinite = true) (hSign : x.isNegative = false)
    {rest : List Char} (hEnds : EndsNumber rest) :
    cut? ((literalText x).toList ++ rest) =
      some (⟨(literalLayout x).pattern, (literalText x).toList⟩, rest) := by
  rw [toList_literalText hFinite hSign]
  exact NumberLayout.cut?_text (literalLayout_wellFormed x) hEnds

/-- What the piece of a printed number denotes. -/
theorem reading_literalText (hFinite : x.isFinite = true) (hSign : x.isNegative = false) :
    (⟨(literalLayout x).pattern, (literalText x).toList⟩ : Piece).reading =
      .token (literalToken x) := by
  have hRead := NumberLayout.read_text (literalLayout_wellFormed x)
  unfold Piece.reading literalToken
  rw [toList_literalText hFinite hSign]
  by_cases hPattern : (literalLayout x).pattern = .integer
  · obtain ⟨hFraction, hExponent, -, hBound⟩ := literalLayout_integer hFinite hPattern
    have hDigits : Decimal.ofDigits (literalLayout x).text =
        (literalLayout x).decimal.coefficient := by
      simp [NumberLayout.text, NumberLayout.decimal, hFraction, hExponent,
        NumberLayout.fractionText, NumberLayout.exponentText]
    have hWord : (literalLayout x).decimal.coefficient < Nat.pow 2 64 := hBound
    simp only [hPattern, hDigits, if_pos hWord, if_true]
  · have hReal : (literalLayout x).pattern = .real := by
      unfold NumberLayout.pattern at hPattern ⊢
      split at hPattern
      · exact absurd rfl hPattern
      · rw [if_neg (by assumption)]
    simp [hReal, hRead, toBinary64_literalLayout hFinite hSign, hFinite]

end Expr
end QuantumCircuit
