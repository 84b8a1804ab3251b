/-! The shortest decimal of an interval: the first of ever finer decimal grids that has a point in it. -/

namespace Maxwell.Decimal

/-- The decimal `coefficient * 10 ^ exponent`. -/
structure Scaled where
  coefficient : Nat
  exponent : Int
  deriving DecidableEq, Repr

/-- An interval around a value, all as multiples of `2 ^ exponent`. -/
structure Interval where
  low : Nat
  value : Nat
  high : Nat
  exponent : Int
  /-- Whether the ends belong to the interval. -/
  closed : Bool
  deriving DecidableEq, Repr

namespace Interval

/-- The numerator of `2 ^ exponent / 10 ^ power`. -/
def numerator (i : Interval) (power : Int) : Nat := Nat.pow 2 i.exponent.toNat * Nat.pow 10 (-power).toNat

/-- The denominator of `2 ^ exponent / 10 ^ power`. -/
def denominator (i : Interval) (power : Int) : Nat := Nat.pow 2 (-i.exponent).toNat * Nat.pow 10 power.toNat

/-- Whether `n * 10 ^ power` lies in the interval. -/
def contains (i : Interval) (power : Int) (n : Nat) : Bool :=
  let point := n * i.denominator power
  let low := i.low * i.numerator power
  let high := i.high * i.numerator power
  if i.closed then low ≤ point && point ≤ high else low < point && point < high

/-- The multiple of `10 ^ power` in the interval that is nearest to the value, the larger one on a tie. -/
def nearest? (i : Interval) (power : Int) : Option Scaled :=
  let value := i.value * i.numerator power
  let below := value / i.denominator power
  let rest := value % i.denominator power
  match i.contains power below, i.contains power (below + 1) with
  | true, true => some ⟨if i.denominator power ≤ 2 * rest then below + 1 else below, power⟩
  | true, false => some ⟨below, power⟩
  | false, true => some ⟨below + 1, power⟩
  | false, false => none

/-- The shortest decimal of the interval, on the coarsest of the grids from `10 ^ power` on down. -/
def shortest (i : Interval) (power : Int) : (grids : Nat) → Scaled
  | 0 => ⟨0, power⟩
  | grids + 1 => (i.nearest? power).getD (i.shortest (power - 1) grids)

end Interval

end Maxwell.Decimal
