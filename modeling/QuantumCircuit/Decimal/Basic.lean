import QuantumCircuit.Binary64

namespace QuantumCircuit

/-!
# Decimal numbers

A decimal number is a natural coefficient times a power of ten.  It stands
between the text of a number and the binary number that the text denotes: texts
are read into it and written from it.
-/

/-- The number `coefficient * 10 ^ exponent`. -/
structure Decimal where
  coefficient : Nat
  exponent : Int
deriving DecidableEq, Repr, Inhabited

namespace Decimal

/-- The digits of a natural number, most significant first. -/
def digitsOf (n : Nat) : List Char := Nat.toDigits 10 n

/-- The natural number with the given digits, most significant first. -/
def ofDigits (digits : List Char) : Nat :=
  digits.foldl (fun value digit => 10 * value + (digit.toNat - '0'.toNat)) 0

/-- Removes zeros at the end of a coefficient, at most `bound` of them. -/
def dropZeros : Nat → Decimal → Decimal
  | 0, d => d
  | bound + 1, d =>
    if d.coefficient % 10 = 0 then
      dropZeros bound ⟨d.coefficient / 10, d.exponent + 1⟩
    else d

/-- The same number with no zero at the end of its coefficient; zero is `0 * 10 ^ 0`. -/
def trimmed (d : Decimal) : Decimal :=
  if d.coefficient = 0 then ⟨0, 0⟩
  else dropZeros (digitsOf d.coefficient).length d

end Decimal

end QuantumCircuit
