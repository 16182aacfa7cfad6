import QuantumCircuit.Decimal.Nearest

namespace QuantumCircuit

/-!
# Reading a number

The text of a number is a run of digits, a point and a second run, and an
exponent; each of them may be missing.  Its value is exact before it is rounded
once to the nearest binary number.
-/

namespace Decimal

/-- Reads the exponent of a number: a letter, perhaps a sign, and digits.  A text that is
no exponent counts as the exponent zero. -/
def readExponent : List Char → Int
  | [] => 0
  | _ :: '-' :: digits => -(ofDigits digits : Int)
  | _ :: '+' :: digits => ofDigits digits
  | _ :: digits => ofDigits digits

/-- Reads a number without a sign. -/
def read (text : List Char) : Decimal :=
  let whole := text.takeWhile Char.isDigit
  match text.dropWhile Char.isDigit with
  | '.' :: rest =>
    let fraction := rest.takeWhile Char.isDigit
    ⟨ofDigits (whole ++ fraction),
      readExponent (rest.dropWhile Char.isDigit) - fraction.length⟩
  | rest => ⟨ofDigits whole, readExponent rest⟩

end Decimal

/-- Reads a number without a sign that may be infinite or not be a number. -/
def Binary64.readUnsigned (text : List Char) : Binary64 :=
  if text = ['N', 'a', 'N'] then .nan
  else if text = ['i', 'n', 'f'] then .infinity
  else (Decimal.read text).toBinary64

/-- Reads a number that may have a sign. -/
def Binary64.read (text : String) : Binary64 :=
  match text.toList with
  | '-' :: digits => (readUnsigned digits).negated
  | digits => readUnsigned digits

end QuantumCircuit
