/-!
Finite double precision numbers, held exactly: a sign, a 53-bit mantissa and a power of two.
Rounding a ratio of naturals goes to the nearest, a tie to the even mantissa.
-/

namespace StackTemplate

/-- The number `± mantissa * 2 ^ exponent`, in the only way that uses all the bits it can. -/
structure Binary64 where
  negative : Bool
  mantissa : Nat
  exponent : Int
  mantissa_lt : mantissa < Nat.pow 2 53 := by decide
  exponent_ge : -1074 ≤ exponent := by decide
  exponent_le : exponent ≤ 971 := by decide
  normal : Nat.pow 2 52 ≤ mantissa ∨ exponent = -1074 := by decide
deriving DecidableEq, Repr

namespace Binary64

def zero (negative : Bool) : Binary64 where
  negative := negative
  mantissa := 0
  exponent := -1074
  mantissa_lt := by decide
  exponent_ge := by decide
  exponent_le := by decide
  normal := Or.inr rfl

instance : Inhabited Binary64 := ⟨zero false⟩

def isZero (x : Binary64) : Bool :=
  x.mantissa == 0

/-- Both zeros are equal. -/
def sameNumber (x y : Binary64) : Bool :=
  x = y || (x.isZero && y.isZero)

/-- The quotient nearest to `n / d`, a tie going to the even one. -/
def roundDiv (n d : Nat) : Nat :=
  let q := n / d
  let r := 2 * (n % d)
  if d < r ∨ (r = d ∧ q % 2 = 1) then q + 1 else q

/-- The exponent at which `n / d` has a 53-bit mantissa, or the least one. -/
def exponentFor (n d : Nat) : Int :=
  let e : Int := (n.log2 : Int) - (d.log2 : Int) - 52
  let fits := d * Nat.pow 2 (e + 52).toNat ≤ n * Nat.pow 2 (-(e + 52)).toNat
  max (if fits then e else e - 1) (-1074)

def mk? (negative : Bool) (mantissa : Nat) (exponent : Int) : Option Binary64 :=
  if h : mantissa < Nat.pow 2 53 ∧ -1074 ≤ exponent ∧ exponent ≤ 971 ∧
      (Nat.pow 2 52 ≤ mantissa ∨ exponent = -1074) then
    some ⟨negative, mantissa, exponent, h.1, h.2.1, h.2.2.1, h.2.2.2⟩
  else none

/-- The double nearest to `n / d`; none when it would be infinite. -/
def ofRatio? (negative : Bool) (n d : Nat) : Option Binary64 :=
  if n = 0 then some (zero negative)
  else
    let e := exponentFor n d
    let m := roundDiv (n * Nat.pow 2 (-e).toNat) (d * Nat.pow 2 e.toNat)
    if m = Nat.pow 2 53 then mk? negative (Nat.pow 2 52) (e + 1) else mk? negative m e

def ofInt? (i : Int) : Option Binary64 :=
  ofRatio? (i < 0) i.natAbs 1

end Binary64

end StackTemplate
