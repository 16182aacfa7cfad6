namespace QuantumCircuit

/-!
# Binary numbers of 64 bits

A number in a text or a tree is kept as its 64 bits: a sign, an exponent of 11
bits and a fraction of 52 bits.  The sign is kept apart from the value, so that
`-0` differs from `0`, and a number that is not a number has a sign, too.
Arithmetic is done on `Float`.
-/

/-- A floating-point number given by its bits. -/
structure Binary64 where
  bits : UInt64
deriving DecidableEq, Repr, Inhabited

namespace Binary64

/-- The bits of a value. -/
def ofFloat (value : Float) : Binary64 := ⟨value.toBits⟩

/-- The value of the bits. -/
def toFloat (x : Binary64) : Float := Float.ofBits x.bits

/-- Is the sign bit set? -/
def isNegative (x : Binary64) : Bool := Nat.pow 2 63 ≤ x.bits.toNat

/-- The bits other than the sign, as a number.  Finite numbers are ordered like them,
but for the sign. -/
def magnitude (x : Binary64) : Nat := x.bits.toNat % Nat.pow 2 63

/-- The exponent as it is stored. -/
def storedExponent (x : Binary64) : Nat := x.magnitude / Nat.pow 2 52

/-- The fraction as it is stored. -/
def fraction (x : Binary64) : Nat := x.magnitude % Nat.pow 2 52

/-- A finite number is a whole number of units: its fraction, with a leading one in front
unless the number is among the smallest. -/
def units (x : Binary64) : Nat :=
  if x.storedExponent = 0 then x.fraction else x.fraction + Nat.pow 2 52

/-- The unit of a finite number is this power of two. -/
def place (x : Binary64) : Int :=
  if x.storedExponent = 0 then -1074 else (x.storedExponent : Int) - 1075

/-- Is the number neither infinite nor not a number? -/
def isFinite (x : Binary64) : Bool := x.storedExponent ≠ Nat.pow 2 11 - 1

/-- Is this not a number? -/
def isNaN (x : Binary64) : Bool := !x.isFinite && x.fraction ≠ 0

/-- The number with the other sign. -/
def negated (x : Binary64) : Binary64 := ⟨x.bits ^^^ 0x8000000000000000⟩

/-- Zero, without a sign. -/
def zero : Binary64 := ⟨0⟩

/-- Not a number, without a sign. -/
def nan : Binary64 := ⟨0x7FF8000000000000⟩

/-- Positive infinity. -/
def infinity : Binary64 := ⟨0x7FF0000000000000⟩

end Binary64

end QuantumCircuit
