import QuantumCircuit.Decimal.Nearest

namespace QuantumCircuit

/-!
# From binary numbers to decimal ones

A positive finite binary number is `m * 2 ^ q`.  Two decimal numbers stand for
it here: the shortest one that reads back as the same number, and the nearest
one with a given count of digits.  Both are found by exact arithmetic on natural
numbers.

* The reals that read back as `m * 2 ^ q` form an interval that reaches half way
  to each neighbour; its ends belong to it exactly when `m` is even.
* On the grid of the multiples of `10 ^ k` only the two neighbours of the number
  are candidates: if any point of the grid lies in the interval, one of them does.
-/

/-- The interval of reals that read back as one binary number, in units of `2 ^ exponent`. -/
structure ReadingInterval where
  lower : Nat
  value : Nat
  upper : Nat
  exponent : Int
  closed : Bool
deriving Repr

namespace ReadingInterval

/-- The interval of a finite binary number without regard to its sign.  The
neighbour below a power of two is half as far away as the one above, unless the
number is among the smallest. -/
def ofBinary64 (x : Binary64) : ReadingInterval :=
  let below := if x.fraction = 0 ∧ 1 < x.storedExponent then 1 else 2
  ⟨4 * x.units - below, 4 * x.units, 4 * x.units + 2, x.place - 2, x.units % 2 = 0⟩

/-- The quotient `n * 2 ^ exponent / 10 ^ k` as numerator and denominator. -/
def onGrid (interval : ReadingInterval) (n : Nat) (k : Int) : Nat × Nat :=
  (n * Nat.pow 2 interval.exponent.toNat * Nat.pow 10 (-k).toNat,
    Nat.pow 2 (-interval.exponent).toNat * Nat.pow 10 k.toNat)

/-- Does `n * 10 ^ k` lie in the interval? -/
def covers (interval : ReadingInterval) (n : Nat) (k : Int) : Bool :=
  let (low, denominator) := interval.onGrid interval.lower k
  let (high, _) := interval.onGrid interval.upper k
  if interval.closed then low ≤ n * denominator && n * denominator ≤ high
  else low < n * denominator && n * denominator < high

/-- The largest `e` with `10 ^ e` at most the value. -/
def magnitude (interval : ReadingInterval) : Int :=
  let guess : Int :=
    ((interval.value.log2 : Int) + interval.exponent) * 30103 / 100000
  let reached (e : Int) : Bool :=
    let (numerator, denominator) := interval.onGrid interval.value e
    denominator ≤ numerator
  ([guess + 1, guess, guess - 1].find? reached).getD (guess - 2)

/-- The multiple of `10 ^ k` nearest to the value. -/
def nearest (interval : ReadingInterval) (tie : Tie) (k : Int) : Nat :=
  let (numerator, denominator) := interval.onGrid interval.value k
  nearestNatural tie numerator denominator

/-- The multiple of `10 ^ k` that lies in the interval, the nearest one if two do. -/
def readable? (interval : ReadingInterval) (tie : Tie) (k : Int) : Option Nat :=
  let (numerator, denominator) := interval.onGrid interval.value k
  let lower := numerator / denominator
  match interval.covers lower k, interval.covers (lower + 1) k with
  | true, true => some (interval.nearest tie k)
  | true, false => some lower
  | false, true => some (lower + 1)
  | false, false => none

/-- The first grid with a readable point, from one digit to seventeen, which
always suffice. -/
def shortest (interval : ReadingInterval) (tie : Tie) : Decimal :=
  let first := interval.magnitude
  let found := (List.range 17).findSome? fun (more : Nat) =>
    (interval.readable? tie (first - more)).map fun n => (⟨n, first - more⟩ : Decimal)
  (found.getD ⟨interval.nearest tie (first - 16), first - 16⟩).trimmed

end ReadingInterval

namespace Decimal

/-- The shortest decimal number that reads back as the finite number `x`, without its sign. -/
def shortest (tie : Tie) (x : Binary64) : Decimal :=
  let interval := ReadingInterval.ofBinary64 x
  if interval.value = 0 then ⟨0, 0⟩ else interval.shortest tie

/-- The decimal number of `places + 1` digits nearest to the finite number `x`, without
its sign; a tie goes to the even digit. -/
def rounded (places : Nat) (x : Binary64) : Decimal :=
  let interval := ReadingInterval.ofBinary64 x
  if interval.value = 0 then ⟨0, 0⟩
  else
    let last := interval.magnitude - places
    let n := interval.nearest .toEven last
    if n < Nat.pow 10 (places + 1) then ⟨n, last⟩ else ⟨n / 10, last + 1⟩

end Decimal

end QuantumCircuit
