import StackTemplate.Decimal.Binary64

/-!
The shortest decimal that reads back as a given double, and the nearest of those.
-/

namespace StackTemplate.Binary64

structure Digits where
  coefficient : Nat
  power : Int
deriving DecidableEq, Repr

/-- Four times the mantissa, and the ends of the interval of numbers that round to the double, all
in units of a quarter of its last place. Below a power of two the gap is half as wide. -/
def interval (x : Binary64) : Nat × Nat :=
  (if x.mantissa = Nat.pow 2 52 ∧ x.exponent ≠ -1074 then 4 * x.mantissa - 1
    else 4 * x.mantissa - 2,
    4 * x.mantissa + 2)

def quarterRatio (x : Binary64) (power : Int) : Nat × Nat :=
  let e := x.exponent - 2
  (Nat.pow 2 e.toNat * Nat.pow 10 (-power).toNat, Nat.pow 2 (-e).toNat * Nat.pow 10 power.toNat)

def rounds (x : Binary64) (ratio : Nat × Nat) (c : Nat) : Bool :=
  let (low, high) := x.interval
  if x.mantissa % 2 = 0 then
    low * ratio.1 ≤ c * ratio.2 && c * ratio.2 ≤ high * ratio.1
  else
    low * ratio.1 < c * ratio.2 && c * ratio.2 < high * ratio.1

def onGrid? (x : Binary64) (power : Int) : Option Digits :=
  let ratio := x.quarterRatio power
  let value := 4 * x.mantissa * ratio.1
  let below := value / ratio.2
  let nearest := roundDiv value ratio.2
  let other := if nearest = below then below + 1 else below
  if x.rounds ratio nearest then some ⟨nearest, power⟩
  else if x.rounds ratio other then some ⟨other, power⟩
  else none

def searchGrids (x : Binary64) : Nat → Int → Digits
  | 0, power => ⟨4 * x.mantissa * (x.quarterRatio power).1 / (x.quarterRatio power).2, power⟩
  | fuel + 1, power => (x.onGrid? power).getD (searchGrids x fuel (power - 1))

/-- The first grid is coarser than the number itself; seventeen digits always suffice. -/
def shortest (x : Binary64) : Digits :=
  let bits : Int := x.mantissa.log2 + 1 + x.exponent
  x.searchGrids 24 (bits * 30103 / 100000 + 2)

end StackTemplate.Binary64
