import QuantumCircuit.Decimal.Rounding

namespace QuantumCircuit

/-!
# The text of a number

Digits and a power of ten are laid out either in full, with a point where it
falls, or as one leading digit, a fraction and an exponent.  A style says which
powers are written in full, how a whole number ends, how an exponent begins, and
which of two equally short digit strings is taken.
-/

namespace Decimal

/-- Lays out digits in full; the first one stands at `10 ^ power`. -/
def inFull (wholeEnd : String) (digits : List Char) (power : Int) : String :=
  if power < 0 then
    "0." ++ String.ofList (List.replicate (-power - 1).toNat '0' ++ digits)
  else
    let whole := power.toNat + 1
    if digits.length ≤ whole then
      String.ofList (digits ++ List.replicate (whole - digits.length) '0') ++ wholeEnd
    else
      String.ofList (digits.take whole) ++ "." ++ String.ofList (digits.drop whole)

/-- Lays out digits as one digit, a fraction and an exponent; the first one stands at
`10 ^ power`.  `plusSign` stands in front of an exponent that is not negative. -/
def withExponent (plusSign : String) (digits : List Char) (power : Int) : String :=
  let fraction := digits.drop 1
  String.ofList (digits.take 1) ++
    (if fraction.isEmpty then "" else "." ++ String.ofList fraction) ++
    "e" ++ (if power < 0 then "" else plusSign) ++ toString power

/-- The power of ten at which the first digit stands. -/
def leadingPower (d : Decimal) : Int :=
  d.exponent + (digitsOf d.coefficient).length - 1

end Decimal

/-- The decisions of a number format. -/
structure NumberStyle where
  /-- Of two equally short digit strings, the one to take. -/
  tie : Tie
  /-- Which positions of the first digit are written without an exponent. -/
  full : Int → Bool
  /-- What ends a whole number that is written without an exponent. -/
  wholeEnd : String
  /-- What stands in front of an exponent that is not negative. -/
  plusSign : String

namespace NumberStyle

/-- Never an exponent, and no point in a whole number. -/
def plain : NumberStyle := ⟨.upward, fun _ => true, "", ""⟩

/-- Always an exponent, without padding. -/
def scientific : NumberStyle := ⟨.upward, fun _ => false, "", ""⟩

/-- In full from `0.00001` up to below `10 ^ 16`, where a whole number ends in `.0`; larger
numbers have a sign in their exponents, and an even digit is taken on a tie. -/
def json : NumberStyle := ⟨.toEven, fun power => -5 ≤ power && power < 16, ".0", "+"⟩

/-- The text of a decimal number in a style. -/
def decimal (style : NumberStyle) (d : Decimal) : String :=
  let digits := Decimal.digitsOf d.coefficient
  if style.full d.leadingPower then Decimal.inFull style.wholeEnd digits d.leadingPower
  else Decimal.withExponent style.plusSign digits d.leadingPower

end NumberStyle

/-- Writes a number whose digits, if it is finite, `finite` writes.  What is not a number
is written without its sign. -/
def numberText (finite : Binary64 → String) (x : Binary64) : String :=
  if x.isNaN then "NaN"
  else (if x.isNegative then "-" else "") ++ (if x.isFinite then finite x else "inf")

/-- The shortest text in a style that reads back as `x`. -/
def NumberStyle.text (style : NumberStyle) : Binary64 → String :=
  numberText fun x => style.decimal (Decimal.shortest style.tie x)

/-- The text with an exponent and `places` digits after the point. -/
def roundedText (places : Nat) : Binary64 → String :=
  numberText fun x =>
    let d := Decimal.rounded places x
    let digits := Decimal.digitsOf d.coefficient
    let padded := digits ++ List.replicate (places + 1 - digits.length) '0'
    Decimal.withExponent "" padded d.leadingPower

end QuantumCircuit
