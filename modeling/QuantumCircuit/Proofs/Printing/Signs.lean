import Mathlib
import QuantumCircuit.Expr.Evaluation
import QuantumCircuit.Proofs.Printing.RoundTrip

/-!
# Printed signs

A tree may hold numbers with a minus sign, which no text is read as: the sign is printed in front
of the number, and it is read as a negation.  `Expr.unsigned` is the tree with negations in place
of the signs.  It has the same text and the same value.

* `Expr.text_unsigned` : the texts are the same, parentheses included.
* `Expr.evaluate_unsigned` : the values are the same, errors included.
* `Expr.parse_signed_text` : the text is read as the tree with negations, or refused for its
  nesting.
-/

namespace QuantumCircuit

open Grammar

/-! ### The number with the other sign -/

namespace Binary64

variable (x : Binary64)

theorem toNat_negated : x.negated.bits.toNat = x.bits.toNat ^^^ 2 ^ 63 := by
  rw [negated, UInt64.toNat_xor]
  rfl

theorem magnitude_negated : x.negated.magnitude = x.magnitude := by
  rw [magnitude_def, magnitude_def, toNat_negated, Nat.xor_mod_two_pow, Nat.mod_self, Nat.xor_zero]

theorem isNegative_negated : x.negated.isNegative = !x.isNegative := by
  have hBits := x.bits.toNat_lt
  have hHigh : (x.bits.toNat ^^^ 2 ^ 63) / 2 ^ 63 = x.bits.toNat / 2 ^ 63 ^^^ 1 := by
    rw [Nat.xor_div_two_pow, Nat.div_self (Nat.two_pow_pos 63)]
  have hCases : x.bits.toNat / 2 ^ 63 = 0 ∨ x.bits.toNat / 2 ^ 63 = 1 := by omega
  rw [isNegative_def, isNegative_def, toNat_negated, ← decide_not, decide_eq_decide]
  rcases hCases with hZero | hOne
  · rw [hZero, Nat.zero_xor] at hHigh
    omega
  · rw [hOne, Nat.xor_self] at hHigh
    omega

theorem isFinite_negated : x.negated.isFinite = x.isFinite := by
  rw [isFinite_def, isFinite_def, storedExponent_def, storedExponent_def, magnitude_negated]

end Binary64

/-- The digits of a number do not depend on its sign. -/
theorem Decimal.shortest_negated (tie : Tie) (x : Binary64) :
    shortest tie x.negated = shortest tie x := by
  have hInterval : ReadingInterval.ofBinary64 x.negated = ReadingInterval.ofBinary64 x := by
    unfold ReadingInterval.ofBinary64 Binary64.units Binary64.place Binary64.fraction
      Binary64.storedExponent
    rw [Binary64.magnitude_negated]
  rw [shortest, hInterval, shortest]

/-- A finite number is written as a minus, if it has one, and the digits. -/
theorem numberText_of_isFinite (finite : Binary64 → String) {x : Binary64}
    (h : x.isFinite = true) :
    numberText finite x = (if x.isNegative then "-" else "") ++ finite x := by
  have hNaN : x.isNaN = false := by simp [Binary64.isNaN, h]
  rw [numberText, hNaN, h]
  rfl

/-- A number with a sign is written as a minus and the number without it. -/
theorem NumberStyle.text_negated (style : NumberStyle) {x : Binary64} (hFinite : x.isFinite = true)
    (hSign : x.isNegative = true) : style.text x = "-" ++ style.text x.negated := by
  have hOther : x.negated.isNegative = false := by rw [x.isNegative_negated, hSign]; rfl
  rw [text, numberText_of_isFinite _ hFinite,
    numberText_of_isFinite _ (x.isFinite_negated.trans hFinite), hSign, hOther,
    Decimal.shortest_negated]
  simp

namespace Expr

theorem literalText_negated {x : Binary64} (hFinite : x.isFinite = true)
    (hSign : x.isNegative = true) : literalText x = "-" ++ literalText x.negated := by
  rw [literalText, literalText, x.isFinite_negated, x.magnitude_negated]
  split
  · exact NumberStyle.text_negated _ hFinite hSign
  · exact NumberStyle.text_negated _ hFinite hSign

/-! ### Negations in place of signs -/

/-- The numbers of the expression are finite, with or without a sign, and its identifiers are
names. -/
def Printable : Expr → Prop
  | number value => value.isFinite = true
  | pi => True
  | identifier name => IsName name
  | neg operand => operand.Printable
  | binary _ left right => left.Printable ∧ right.Printable
  | call _ argument => argument.Printable

instance decidablePrintable : (e : Expr) → Decidable e.Printable
  | number value => inferInstanceAs (Decidable (value.isFinite = true))
  | pi => inferInstanceAs (Decidable True)
  | identifier name => inferInstanceAs (Decidable (IsName name))
  | neg operand => decidablePrintable operand
  | binary _ left right =>
    @instDecidableAnd _ _ (decidablePrintable left) (decidablePrintable right)
  | call _ argument => decidablePrintable argument

/-- The expression with a negation in place of every sign of a number. -/
def unsigned : Expr → Expr
  | number value => if value.isNegative then neg (number value.negated) else number value
  | pi => pi
  | identifier name => identifier name
  | neg operand => neg operand.unsigned
  | binary operator left right => binary operator left.unsigned right.unsigned
  | call function argument => call function argument.unsigned

theorem unsigned_of_isNegative {value : Binary64} (h : value.isNegative = true) :
    (number value).unsigned = neg (number value.negated) :=
  if_pos h

theorem unsigned_of_not_isNegative {value : Binary64} (h : ¬ value.isNegative = true) :
    (number value).unsigned = number value :=
  if_neg h

theorem Printable.legible_unsigned {e : Expr} (h : e.Printable) : e.unsigned.Legible := by
  induction e with
  | number value =>
      by_cases hSign : value.isNegative = true
      · rw [unsigned_of_isNegative hSign]
        refine ⟨value.isFinite_negated.trans h, ?_⟩
        rw [value.isNegative_negated, hSign]
        rfl
      · rw [unsigned_of_not_isNegative hSign]
        exact ⟨h, Bool.eq_false_of_not_eq_true hSign⟩
  | pi => trivial
  | identifier name => exact h
  | neg operand ih => exact ih h
  | binary operator left right ihLeft ihRight => exact ⟨ihLeft h.1, ihRight h.2⟩
  | call function argument ih => exact ih h

/-- A sign counts as a negation wherever parentheses are decided on. -/
theorem strength_unsigned (e : Expr) : e.unsigned.strength = e.strength := by
  cases e with
  | number value =>
      by_cases hSign : value.isNegative = true
      · rw [unsigned_of_isNegative hSign, strength, strength, if_pos hSign]
      · rw [unsigned_of_not_isNegative hSign]
  | _ => rfl

theorem parenthesesNeg_unsigned (operand : Expr) :
    parenthesesNeg operand.unsigned = parenthesesNeg operand := by
  rw [parenthesesNeg, strength_unsigned, parenthesesNeg]

theorem parenthesesLeft_unsigned (operator : Operator) (left : Expr) :
    parenthesesLeft operator left.unsigned = parenthesesLeft operator left := by
  rw [parenthesesLeft, strength_unsigned, parenthesesLeft]

theorem parenthesesRight_unsigned (operator : Operator) (right : Expr) :
    parenthesesRight operator right.unsigned = parenthesesRight operator right := by
  rw [parenthesesRight, strength_unsigned, parenthesesRight]

/-- A sign is printed without parentheses of its own. -/
theorem parenthesesNeg_negated {value : Binary64} (h : value.isNegative = true) :
    parenthesesNeg (number value.negated) = false := by
  have hOther := value.isNegative_negated
  rw [h] at hOther
  simp [parenthesesNeg, strength, hOther]

/-- **Same text.**  The texts agree in their signs and their parentheses. -/
theorem text_unsigned {e : Expr} (h : e.Printable) : e.unsigned.text = e.text := by
  induction e with
  | number value =>
      by_cases hSign : value.isNegative = true
      · rw [unsigned_of_isNegative hSign]
        show "-" ++ enclose (parenthesesNeg (number value.negated)) (literalText value.negated) =
          literalText value
        rw [parenthesesNeg_negated hSign, literalText_negated h hSign]
        rfl
      · rw [unsigned_of_not_isNegative hSign]
  | pi => rfl
  | identifier name => rfl
  | neg operand ih => rw [unsigned, text, text, parenthesesNeg_unsigned, ih h]
  | binary operator left right ihLeft ihRight =>
      rw [unsigned, text, text, parenthesesLeft_unsigned, parenthesesRight_unsigned, ihLeft h.1,
        ihRight h.2]
  | call function argument ih => rw [unsigned, text, text, ih h]

theorem cost_unsigned (e : Expr) : e.unsigned.cost = e.cost := by
  induction e with
  | number value =>
      by_cases hSign : value.isNegative = true
      · rw [unsigned_of_isNegative hSign]
        show encloseCost (parenthesesNeg (number value.negated)) 0 = 0
        rw [parenthesesNeg_negated hSign]
        rfl
      · rw [unsigned_of_not_isNegative hSign]
  | pi => rfl
  | identifier name => rfl
  | neg operand ih => rw [unsigned, cost, cost, parenthesesNeg_unsigned, ih]
  | binary operator left right ihLeft ihRight =>
      rw [unsigned, cost, cost, parenthesesLeft_unsigned, parenthesesRight_unsigned, ihLeft,
        ihRight]
  | call function argument ih => rw [unsigned, cost, cost, ih]

/-- The negations add one level at most, since a number is the end of its branch. -/
theorem height_unsigned_le (e : Expr) : e.unsigned.height ≤ e.height + 1 := by
  induction e with
  | number value =>
      by_cases hSign : value.isNegative = true
      · rw [unsigned_of_isNegative hSign]
        exact Nat.le_refl _
      · rw [unsigned_of_not_isNegative hSign]
        exact Nat.le_succ _
  | pi => exact Nat.le_succ _
  | identifier name => exact Nat.le_succ _
  | neg operand ih => exact Nat.succ_le_succ ih
  | binary operator left right ihLeft ihRight =>
      simp only [unsigned, height]
      omega
  | call function argument ih => exact Nat.succ_le_succ ih

/-- Half of the nesting limit is enough, although the negations make the tree higher. -/
theorem readable_unsigned {e : Expr} (h : e.height ≤ 128) : e.unsigned.Readable := by
  have hCost := e.cost_lt
  have hHeight := e.height_unsigned_le
  have hLimit : nestingLimit = 256 := rfl
  exact ⟨by rw [cost_unsigned]; omega, by omega⟩

end Expr

/-! ### Negated values -/

section Values

open Float.Model (UnpackedFloat)
open Float.Model.UnpackedFloat
open Float.Model.Format (binary64)

/-- The bits of a number of which only the sign is set. -/
def signBits : BitVec binary64.numBits := 0x8000000000000000#64

theorem unpacked_neg_neg (value : UnpackedFloat) : value.neg.neg = value := by
  rcases value with ⟨⟨⟩⟩ | _ | ⟨⟨⟩⟩ | ⟨⟨⟩, _, _, _⟩ <;> rfl

/-- Unpacking forgets the bits of what is not a number, and nothing else; packing and unpacking
again shows the same. -/
theorem unpack_pack_unpack (bits : BitVec binary64.numBits) :
    unpack binary64 (pack binary64 (unpack binary64 bits)) = unpack binary64 bits := by
  rw [pack_unpack]
  split
  · rename_i hNaN
    have hBits : unpackExponent bits = -1#_ ∧ unpackMantissa bits ≠ 0#_ := by
      simpa [isNaNBits] using hNaN
    rw [unpack_packedNaN, unpack, if_pos hBits.1, if_neg hBits.2]
  · rfl

theorem unpackMantissa_xor_signBits (bits : BitVec binary64.numBits) :
    unpackMantissa (bits ^^^ signBits) = unpackMantissa bits := by
  have hSignBits : signBits.extractLsb' 0 binary64.mantissaBitsWithoutImplicit = 0#_ := rfl
  rw [unpackMantissa_def, unpackMantissa_def, BitVec.extractLsb'_xor, hSignBits, BitVec.xor_zero]

theorem unpackExponent_xor_signBits (bits : BitVec binary64.numBits) :
    unpackExponent (bits ^^^ signBits) = unpackExponent bits := by
  have hSignBits : signBits.extractLsb' binary64.mantissaBitsWithoutImplicit
      binary64.exponentBits = 0#_ := rfl
  rw [unpackExponent_def, unpackExponent_def, BitVec.extractLsb'_xor, hSignBits, BitVec.xor_zero]

theorem unpackSign_xor_signBits (bits : BitVec binary64.numBits) :
    Sign.ofBitVec (unpackSign (bits ^^^ signBits)) = -Sign.ofBitVec (unpackSign bits) := by
  rw [unpackSign_def, unpackSign_def, BitVec.extractLsb'_xor]
  obtain hSign | hSign := BitVec.eq_zero_or_eq_one (bits.extractLsb' (52 + 11) 1)
  · rw [hSign]
    rfl
  · rw [hSign]
    rfl

/-- Turning the sign bit negates the number. -/
theorem unpack_xor_signBits (bits : BitVec binary64.numBits) :
    unpack binary64 (bits ^^^ signBits) = (unpack binary64 bits).neg := by
  unfold unpack
  simp only [unpackMantissa_xor_signBits, unpackExponent_xor_signBits, unpackSign_xor_signBits]
  split
  · split <;> rfl
  · split
    · split <;> rfl
    · rfl

/-- The value of a number is the negated value of the number with the other sign. -/
theorem neg_toFloat_negated (x : Binary64) : Float.neg x.negated.toFloat = x.toFloat := by
  have hUnpacked : (Float.Model.ofBits x.negated.bits).unpack =
      (unpack binary64 x.bits.toBitVec).neg := by
    show unpack binary64 (pack binary64 (unpack binary64 (x.bits.toBitVec ^^^ signBits))) = _
    rw [unpack_pack_unpack, unpack_xor_signBits]
  calc
    Float.neg x.negated.toFloat =
        .ofModel (Float.Model.pack (Float.Model.ofBits x.negated.bits).unpack.neg) := rfl
    _ = .ofModel (Float.Model.pack (unpack binary64 x.bits.toBitVec)) := by
      rw [hUnpacked, unpacked_neg_neg]
    _ = x.toFloat := rfl

end Values

/-- Negations in place of signs change no value, if the arithmetic negates a number as it turns
the sign. -/
theorem Arithmetic.evaluate_unsigned {α : Type} (arithmetic : Arithmetic α)
    (h : ∀ x : Binary64, arithmetic.neg (arithmetic.number x.negated) = arithmetic.number x)
    (bindings : Bindings α) (e : Expr) :
    arithmetic.evaluate bindings e.unsigned = arithmetic.evaluate bindings e := by
  induction e with
  | number value =>
      by_cases hSign : value.isNegative = true
      · rw [Expr.unsigned_of_isNegative hSign, evaluate, evaluate, evaluate, ← h value]
        rfl
      · rw [Expr.unsigned_of_not_isNegative hSign]
  | pi => rfl
  | identifier name => rfl
  | neg operand ih => rw [Expr.unsigned, evaluate, evaluate, ih]
  | binary operator left right ihLeft ihRight =>
      rw [Expr.unsigned, evaluate, evaluate, ihLeft, ihRight]
  | call function argument ih => rw [Expr.unsigned, evaluate, evaluate, ih]

/-- **Same value.**  The values agree, and so do the errors. -/
theorem Expr.evaluate_unsigned (e : Expr) (bindings : Bindings Float) :
    e.unsigned.evaluate bindings = e.evaluate bindings :=
  Arithmetic.binary64.evaluate_unsigned neg_toFloat_negated bindings e

/-! ### Reading the text of an expression -/

namespace Expr

variable {e : Expr}

theorem marks_ne_nil (e : Expr) : e.marks ≠ [] := by
  cases e <;> simp [marks]

/-- Nothing stands behind the text, so that it is scanned into its marks. -/
theorem scan_text (h : e.Legible) : scan e.text.toList = some e.marks := by
  have hShows := text_shows h [] fun _ hFront => nomatch hFront
  rwa [List.append_nil, scan_nil, Option.map_some, List.append_nil] at hShows

/-- A legible expression has a text. -/
theorem text_ne_empty (h : e.Legible) : e.text.isEmpty = false := by
  rw [Bool.eq_false_iff]
  intro hEmpty
  have hScan := scan_text h
  rw [String.isEmpty_iff.mp hEmpty] at hScan
  exact e.marks_ne_nil (Option.some.inj (scan_nil.symm.trans hScan)).symm

/-- The lexemes of the text of a legible expression are derived as the expression. -/
theorem derives_of_tokenize (h : e.Legible) :
    ∃ lexemes, tokenize e.text = .ok lexemes ∧ Derives 0 (properLexemes lexemes) e e.cost := by
  have hScan := scan_text h
  obtain ⟨lexemes, hLexemes, hMarks⟩ := tokenize_of_scan hScan
  have hDerives := derives_of_marks h (properLexemes_marks hMarks (scan_proper hScan))
  exact ⟨lexemes, hLexemes, hDerives.loosen (Nat.zero_le _)⟩

theorem parse_of_tokenize {source : String} {lexemes : List Lexeme}
    (hSource : source.isEmpty = false) (hLexemes : tokenize source = .ok lexemes) :
    Expr.parse source = (Expr.ofLexemes lexemes).mapError .syntactic := by
  rw [Expr.parse, hSource, lexemesOf, hLexemes]
  rfl

/-- A legible expression within the limits is read from its text. -/
theorem read_text (h : e.Legible) (hReadable : e.Readable) : Expr.parse e.text = .ok e := by
  obtain ⟨lexemes, hLexemes, hDerives⟩ := derives_of_tokenize h
  have hRead : Expr.ofLexemes lexemes = .ok e :=
    Expr.ofLexemes_eq_ok.mpr ⟨e.cost, hDerives, hReadable.cost, hReadable.height⟩
  rw [parse_of_tokenize (text_ne_empty h) hLexemes, hRead]
  rfl

/-- A legible expression beyond the limits is refused for its nesting. -/
theorem refuse_text (h : e.Legible) (hDeep : ¬ e.Readable) :
    ∃ error, Expr.parse e.text = .error (.syntactic error) ∧ error.IsNesting := by
  obtain ⟨lexemes, hLexemes, hDerives⟩ := derives_of_tokenize h
  have hBeyond : nestingLimit ≤ e.cost ∨ nestingLimit < e.height := by
    by_contra hWithin
    exact hDeep ⟨by omega, by omega⟩
  have hStops : Stops (edge 0) [] := fun _ _ hFront => nomatch hFront
  have hRefuses : RefusesNesting expression (properLexemes lexemes ++ []) :=
    Refuses.expressionWithin hDerives.refused (by omega) hStops
  rw [List.append_nil] at hRefuses
  obtain ⟨rest, hRefused⟩ := hRefuses
  refine ⟨(tooDeep rest).report (finalLexeme lexemes), ?_, rfl⟩
  rw [parse_of_tokenize (text_ne_empty h) hLexemes, Expr.ofLexemes, readAll, hRefused]
  rfl

/-- **Printing keeps the meaning.**  The text of an expression with finite numbers is read as the
expression with negations in place of signs, which has the same value whatever the bindings are,
or it is refused for its nesting; it is read if the expression is at most 128 levels high. -/
theorem parse_signed_text (h : e.Printable) :
    ((∃ error, Expr.parse e.text = .error (.syntactic error) ∧ error.IsNesting) ∨
        Expr.parse e.text = .ok e.unsigned) ∧
      (e.height ≤ 128 → Expr.parse e.text = .ok e.unsigned) ∧
      ∀ bindings, e.unsigned.evaluate bindings = e.evaluate bindings := by
  have hLegible := h.legible_unsigned
  rw [← text_unsigned h]
  refine ⟨?_, fun hHeight => read_text hLegible (readable_unsigned hHeight), e.evaluate_unsigned⟩
  by_cases hReadable : e.unsigned.Readable
  · exact Or.inr (read_text hLegible hReadable)
  · exact Or.inl (refuse_text hLegible hReadable)

/-- Numbers with a sign to the left of a power, to its right and within a negation: the tree of
`(-2) ^ -0 - -(-theta)`. -/
def signedPowers : Expr :=
  .binary .sub
    (.binary .pow (.number ⟨0xC000000000000000⟩) (.number ⟨0x8000000000000000⟩))
    (.neg (.neg (.identifier "theta")))

theorem parse_signed_text_signedPowers :
    (signedPowers.Printable ∧ signedPowers.height ≤ 128) ∧
      signedPowers.unsigned ≠ signedPowers ∧
      Expr.parse signedPowers.text = .ok signedPowers.unsigned ∧
      ∀ bindings, signedPowers.unsigned.evaluate bindings = signedPowers.evaluate bindings := by
  have hPrintable : signedPowers.Printable := by decide
  have hHeight : signedPowers.height ≤ 128 := by decide
  obtain ⟨-, hRead, hValue⟩ := parse_signed_text hPrintable
  exact ⟨⟨hPrintable, hHeight⟩, by decide, hRead hHeight, hValue⟩

end Expr
end QuantumCircuit
