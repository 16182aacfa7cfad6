import QuantumCircuit.Decimal.Basic

namespace QuantumCircuit

/-!
# The nearest binary number

A decimal number is a quotient of natural numbers, and a quotient is rounded once:
to the nearest multiple of the power of two that its size allows, or to the even one
of two multiples that are equally near.  Everything is exact arithmetic on natural
numbers.
-/

/-- What is chosen when two candidates are equally near. -/
inductive Tie where
  | upward
  | toEven
deriving DecidableEq, Repr

/-- Is the upper neighbour of a quotient the nearer one, given the lower one and the remainder
above it? -/
def roundsUp (tie : Tie) (lower remainder denominator : Nat) : Bool :=
  match compare (2 * remainder) denominator with
  | .lt => false
  | .gt => true
  | .eq => match tie with
    | .upward => true
    | .toEven => lower % 2 = 1

/-- The natural number nearest to a quotient. -/
def nearestNatural (tie : Tie) (numerator denominator : Nat) : Nat :=
  let lower := numerator / denominator
  if roundsUp tie lower (numerator % denominator) denominator then lower + 1 else lower

/-- The largest `e` with `2 ^ e` at most a positive quotient. -/
def quotientPower (numerator denominator : Nat) : Int :=
  let guess : Int := (numerator.log2 : Int) - denominator.log2
  if denominator * Nat.pow 2 guess.toNat ≤ numerator * Nat.pow 2 (-guess).toNat then guess
  else guess - 1

namespace Binary64

/-- The binary number nearest to a positive quotient.  The last place has 53 places up to the
leading one, unless the quotient is so small that it reaches the smallest place there is; a
carry out of the 53 places moves on into the stored exponent. -/
def ofQuotient (numerator denominator : Nat) : Binary64 :=
  let place := max (quotientPower numerator denominator - 52) (-1074)
  let units := nearestNatural .toEven (numerator * Nat.pow 2 (-place).toNat)
    (denominator * Nat.pow 2 place.toNat)
  let magnitude := (place + 1074).toNat * Nat.pow 2 52 + units
  if magnitude < infinity.bits.toNat then ⟨UInt64.ofNat magnitude⟩ else infinity

end Binary64

namespace Decimal

/-- The nearest binary number, to even on a tie; infinite when the number is too large.  An
exponent that is out of range by itself decides the answer without its power of ten. -/
def toBinary64 (d : Decimal) : Binary64 :=
  if d.coefficient = 0 then .zero
  else if 310 < d.exponent then .infinity
  else if d.exponent < -((400 + d.coefficient.log2 : Nat) : Int) then .zero
  else .ofQuotient (d.coefficient * Nat.pow 10 d.exponent.toNat) (Nat.pow 10 (-d.exponent).toNat)

end Decimal

end QuantumCircuit
