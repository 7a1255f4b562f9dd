import Mathlib.Algebra.Order.Field.Power
import Mathlib.Data.Rat.Cast.Order
import Mathlib.Tactic.FieldSimp
import Mathlib.Tactic.Linarith
import Mathlib.Tactic.NormNum
import Mathlib.Tactic.Positivity
import Mathlib.Tactic.Ring
import StackTemplate.Decimal.Binary64

/-!
Rounding to doubles: a ratio is rounded to a nearest double, and to none just from the middle
between the greatest double and the power of two above it.
-/

namespace StackTemplate.Binary64

variable {n d : Nat} {negative : Bool} {x : Binary64}

def magnitude (x : Binary64) : ℚ :=
  x.mantissa * 2 ^ x.exponent

def signed (negative : Bool) (a : ℚ) : ℚ :=
  if negative then -a else a

def toRat (x : Binary64) : ℚ :=
  signed x.negative x.magnitude

/-- Numbers from here on round to infinity. -/
def overflow : ℚ :=
  2 ^ (1024 : ℤ) - 2 ^ (970 : ℤ)

theorem signed_signed (negative : Bool) (a : ℚ) : signed negative (signed negative a) = a := by
  cases negative <;> simp [signed]

theorem abs_signed (negative : Bool) (a : ℚ) : |signed negative a| = |a| := by
  cases negative <;> simp [signed]

theorem abs_signed_sub (negative : Bool) (a b : ℚ) :
    |signed negative a - signed negative b| = |a - b| := by
  cases negative
  · rfl
  · rw [abs_sub_comm]
    simp only [signed, if_true, sub_neg_eq_add, neg_add_eq_sub]

theorem magnitude_nonneg (x : Binary64) : 0 ≤ x.magnitude := by
  rw [magnitude]
  positivity

theorem abs_toRat (x : Binary64) : |x.toRat| = x.magnitude := by
  rw [toRat, abs_signed, abs_of_nonneg x.magnitude_nonneg]

theorem toRat_zero (negative : Bool) : (zero negative).toRat = 0 := by
  cases negative <;> simp [toRat, signed, magnitude, zero]

/-- Half of the least unit is no nearer to another double than to zero. -/
theorem abs_zero_sub_le {a : ℚ} (hge : 0 ≤ a) (hle : a ≤ 2 ^ (-1075 : ℤ)) (y : Binary64) :
    |(zero negative).toRat - signed negative a| ≤ |y.toRat - signed negative a| := by
  rw [toRat_zero, zero_sub, abs_neg, abs_signed, abs_of_nonneg hge]
  by_cases hzero : y.mantissa = 0
  · have hy : y.toRat = 0 := by
      rw [← abs_eq_zero, abs_toRat, magnitude, hzero, Nat.cast_zero, zero_mul]
    rw [hy, zero_sub, abs_neg, abs_signed, abs_of_nonneg hge]
  · have hunit : (2 : ℚ) ^ (-1074 : ℤ) ≤ |y.toRat| := by
      have hone : (1 : ℚ) ≤ y.mantissa := by exact_mod_cast Nat.one_le_iff_ne_zero.mpr hzero
      rw [abs_toRat, magnitude]
      exact (zpow_le_zpow_right₀ one_le_two y.exponent_ge).trans
        (le_mul_of_one_le_left (by positivity) hone)
    have htwo : (2 : ℚ) ^ (-1074 : ℤ) = 2 * 2 ^ (-1075 : ℤ) := by
      rw [show (-1074 : ℤ) = 1 + -1075 by rfl, zpow_add₀ two_ne_zero, zpow_one]
    have htriangle := abs_sub_abs_le_abs_sub y.toRat (signed negative a)
    rw [abs_signed, abs_of_nonneg hge] at htriangle
    linarith

/-! The nearest integer -/

theorem roundDiv_cases (n d : Nat) :
    (roundDiv n d = n / d ∧ 2 * (n % d) ≤ d) ∨ (roundDiv n d = n / d + 1 ∧ d ≤ 2 * (n % d)) := by
  simp only [roundDiv]
  split
  · exact .inr ⟨rfl, by omega⟩
  · exact .inl ⟨rfl, by omega⟩

theorem roundDiv_even (h : 2 * (n % d) = d) : roundDiv n d % 2 = 0 := by
  simp only [roundDiv]
  split
  · rename_i hup
    have hodd : n / d % 2 = 1 := by
      rcases hup with hlt | ⟨-, hodd⟩
      · exact absurd h (Nat.ne_of_gt hlt)
      · exact hodd
    omega
  · rename_i hdown
    have heven : n / d % 2 ≠ 1 := fun hodd => hdown (.inr ⟨h, hodd⟩)
    omega

section

variable (hd : d ≠ 0)

include hd

theorem cast_div_eq : (n : ℚ) / d = (n / d : ℕ) + (n % d : ℕ) / d := by
  have hd' : (d : ℚ) ≠ 0 := Nat.cast_ne_zero.mpr hd
  have hsum : (n : ℚ) = d * (n / d : ℕ) + (n % d : ℕ) := by
    exact_mod_cast (Nat.div_add_mod n d).symm
  rw [div_eq_iff hd', add_mul, div_mul_cancel₀ _ hd']
  rw [hsum]
  ring

theorem abs_roundDiv_sub_le : |(roundDiv n d : ℚ) - n / d| ≤ 1 / 2 := by
  have hd' : (0 : ℚ) < d := Nat.cast_pos.mpr (Nat.pos_of_ne_zero hd)
  have hlt : ((n % d : ℕ) : ℚ) / d ≤ 1 := by
    rw [div_le_one hd']
    exact_mod_cast (Nat.mod_lt n (Nat.pos_of_ne_zero hd)).le
  have hge : (0 : ℚ) ≤ ((n % d : ℕ) : ℚ) / d := by positivity
  rw [cast_div_eq hd, abs_le]
  rcases roundDiv_cases n d with ⟨hround, hhalf⟩ | ⟨hround, hhalf⟩
  · have hhalf : ((n % d : ℕ) : ℚ) / d ≤ 1 / 2 := by
      rw [div_le_iff₀ hd']
      have hcast : (2 : ℚ) * (n % d : ℕ) ≤ d := by exact_mod_cast hhalf
      linarith
    rw [hround]
    constructor <;> linarith
  · have hhalf : 1 / 2 ≤ ((n % d : ℕ) : ℚ) / d := by
      rw [le_div_iff₀ hd']
      have hcast : (d : ℚ) ≤ 2 * (n % d : ℕ) := by exact_mod_cast hhalf
      linarith
    rw [hround]
    push_cast
    constructor <;> linarith

/-- No integer is nearer. -/
theorem abs_roundDiv_sub_le_abs (k : ℤ) : |(roundDiv n d : ℚ) - n / d| ≤ |k - (n : ℚ) / d| := by
  have hnear := abs_roundDiv_sub_le (n := n) hd
  by_cases hk : k = roundDiv n d
  · rw [hk]
    simp
  · have hone : (1 : ℚ) ≤ |(k : ℚ) - roundDiv n d| := by
      have hint : (1 : ℤ) ≤ |k - roundDiv n d| := Int.one_le_abs (sub_ne_zero.mpr hk)
      exact_mod_cast hint
    have htriangle :
        |(k : ℚ) - roundDiv n d| ≤ |(k : ℚ) - n / d| + |(roundDiv n d : ℚ) - n / d| := by
      rw [abs_sub_comm (roundDiv n d : ℚ)]
      exact abs_sub_le _ _ _
    linarith

/-- A tie goes to the even one, so half a unit below an even number is rounded up to it. -/
theorem le_roundDiv_iff {k : Nat} (hk : k % 2 = 0) :
    k ≤ roundDiv n d ↔ (k : ℚ) - 1 / 2 ≤ n / d := by
  have hnear := abs_le.mp (abs_roundDiv_sub_le (n := n) hd)
  constructor
  · intro h
    have hcast : (k : ℚ) ≤ roundDiv n d := by exact_mod_cast h
    linarith
  · intro h
    by_contra hlt
    have hcast : (roundDiv n d : ℚ) + 1 ≤ k := by exact_mod_cast Nat.lt_of_not_le hlt
    have hd' : (0 : ℚ) < d := Nat.cast_pos.mpr (Nat.pos_of_ne_zero hd)
    have hratio := cast_div_eq (n := n) hd
    rcases roundDiv_cases n d with ⟨hround, hhalf⟩ | ⟨hround, -⟩
    · -- The quotient lies in the middle, and its even neighbour is the upper one.
      rw [hround] at hcast hnear
      have htie : ((n % d : ℕ) : ℚ) / d = 1 / 2 := by linarith
      rw [div_eq_div_iff hd'.ne' two_ne_zero, one_mul, mul_comm] at htie
      have heven := roundDiv_even (n := n) (d := d) (by exact_mod_cast htie)
      have hk' : ((n / d : ℕ) : ℚ) + 1 = k := by linarith
      have hsucc : n / d + 1 = k := by exact_mod_cast hk'
      omega
    · have hlt : ((n % d : ℕ) : ℚ) / d < 1 := by
        rw [div_lt_one hd']
        exact_mod_cast Nat.mod_lt n (Nat.pos_of_ne_zero hd)
      rw [hround] at hcast
      push_cast at hcast
      linarith

end

/-! The exponent -/

theorem two_zpow_eq (e : ℤ) : (2 : ℚ) ^ e = 2 ^ e.toNat / 2 ^ (-e).toNat := by
  obtain ⟨k, rfl | rfl⟩ := Int.eq_nat_or_neg e
  · simp
  · simp

theorem scaled_eq (n d : Nat) (e : ℤ) :
    ((n * Nat.pow 2 (-e).toNat : ℕ) : ℚ) / (d * Nat.pow 2 e.toNat : ℕ) = n / d / 2 ^ e := by
  rw [two_zpow_eq]
  simp only [Nat.pow_eq]
  push_cast
  field_simp

theorem fits_iff (hd : d ≠ 0) (e : ℤ) :
    d * Nat.pow 2 e.toNat ≤ n * Nat.pow 2 (-e).toNat ↔ (2 : ℚ) ^ e ≤ n / d := by
  have hd' : (0 : ℚ) < d := Nat.cast_pos.mpr (Nat.pos_of_ne_zero hd)
  have hpow : (0 : ℚ) < 2 ^ (-e).toNat := by positivity
  rw [le_div_iff₀ hd', two_zpow_eq, div_mul_eq_mul_div, div_le_iff₀ hpow, mul_comm _ (d : ℚ)]
  simp only [Nat.pow_eq]
  exact_mod_cast Iff.rfl

theorem ratio_bounds (hn : n ≠ 0) (hd : d ≠ 0) :
    (2 : ℚ) ^ ((n.log2 : ℤ) - d.log2 - 1) ≤ n / d ∧
      (n : ℚ) / d < 2 ^ ((n.log2 : ℤ) - d.log2 + 1) := by
  have hd' : (0 : ℚ) < d := Nat.cast_pos.mpr (Nat.pos_of_ne_zero hd)
  have hnlow : (2 : ℚ) ^ n.log2 ≤ n := by exact_mod_cast Nat.log2_self_le hn
  have hnhigh : (n : ℚ) < 2 ^ (n.log2 + 1) := by exact_mod_cast Nat.lt_log2_self (n := n)
  have hdlow : (2 : ℚ) ^ d.log2 ≤ d := by exact_mod_cast Nat.log2_self_le hd
  have hdhigh : (d : ℚ) < 2 ^ (d.log2 + 1) := by exact_mod_cast Nat.lt_log2_self (n := d)
  constructor
  · rw [le_div_iff₀ hd']
    calc
      (2 : ℚ) ^ ((n.log2 : ℤ) - d.log2 - 1) * d
        ≤ 2 ^ ((n.log2 : ℤ) - d.log2 - 1) * 2 ^ ((d.log2 : ℤ) + 1) := by
          gcongr
          exact_mod_cast hdhigh.le
      _ = 2 ^ (n.log2 : ℤ) := by
          rw [← zpow_add₀ two_ne_zero]
          congr 1
          ring
      _ ≤ n := by exact_mod_cast hnlow
  · rw [div_lt_iff₀ hd']
    calc
      (n : ℚ) < 2 ^ ((n.log2 : ℤ) + 1) := by exact_mod_cast hnhigh
      _ = 2 ^ ((n.log2 : ℤ) - d.log2 + 1) * 2 ^ (d.log2 : ℤ) := by
          rw [← zpow_add₀ two_ne_zero]
          congr 1
          ring
      _ ≤ 2 ^ ((n.log2 : ℤ) - d.log2 + 1) * d := by
          gcongr
          exact_mod_cast hdlow

/-- At this exponent the mantissa has at most 53 bits, and all of them unless the exponent is the
least. -/
theorem exponentFor_spec (hn : n ≠ 0) (hd : d ≠ 0) :
    -1074 ≤ exponentFor n d ∧ (n : ℚ) / d < 2 ^ (exponentFor n d + 53) ∧
      (exponentFor n d = -1074 ∨ (2 : ℚ) ^ (exponentFor n d + 52) ≤ n / d) := by
  obtain ⟨hlow, hhigh⟩ := ratio_bounds hn hd
  simp only [exponentFor]
  generalize he : (n.log2 : ℤ) - d.log2 - 52 = e
  have hone : (2 : ℚ) ^ ((n.log2 : ℤ) - d.log2 - 1) = 2 ^ (e + 51) := by rw [← he]; congr 1; ring
  have htwo : (2 : ℚ) ^ ((n.log2 : ℤ) - d.log2 + 1) = 2 ^ (e + 53) := by rw [← he]; congr 1; ring
  rw [hone] at hlow
  rw [htwo] at hhigh
  have hmax : ∀ f : ℤ, (n : ℚ) / d < 2 ^ (f + 53) → (2 : ℚ) ^ (f + 52) ≤ n / d →
      -1074 ≤ max f (-1074) ∧ (n : ℚ) / d < 2 ^ (max f (-1074) + 53) ∧
        (max f (-1074) = -1074 ∨ (2 : ℚ) ^ (max f (-1074) + 52) ≤ n / d) := by
    intro f hupper hlower
    refine ⟨le_max_right _ _, hupper.trans_le ?_, ?_⟩
    · exact zpow_le_zpow_right₀ one_le_two (by omega)
    · rcases max_choice f (-1074) with hf | hf
      · rw [hf]
        exact .inr hlower
      · exact .inl hf
  split
  · rename_i hfits
    exact hmax e hhigh ((fits_iff hd _).mp hfits)
  · rename_i hfits
    refine hmax (e - 1) ?_ ?_
    · rw [show e - 1 + 53 = e + 52 by ring]
      exact not_le.mp (mt (fits_iff hd _).mpr hfits)
    · rw [show e - 1 + 52 = e + 51 by ring]
      exact hlow

/-! Doubles -/

theorem mk?_of_le (negative : Bool) {m : Nat} {e : ℤ} (hm : m < Nat.pow 2 53) (hge : -1074 ≤ e)
    (hnormal : Nat.pow 2 52 ≤ m ∨ e = -1074) (h : e ≤ 971) :
    ∃ x, mk? negative m e = some x ∧ x.negative = negative ∧ x.magnitude = m * 2 ^ e := by
  rw [mk?, dif_pos ⟨hm, hge, h, hnormal⟩]
  exact ⟨_, rfl, rfl, rfl⟩

theorem mk?_of_lt {m : Nat} {e : ℤ} (h : 971 < e) : mk? negative m e = none := by
  rw [mk?, dif_neg fun hfits => absurd hfits.2.2.1 (not_le.mpr h)]

/-- The mantissa of a ratio before it is known whether it takes a bit more. -/
def mantissaFor (n d : Nat) : Nat :=
  roundDiv (n * Nat.pow 2 (-exponentFor n d).toNat) (d * Nat.pow 2 (exponentFor n d).toNat)

theorem two_zpow_add (e f : ℤ) : (2 : ℚ) ^ (e + f) = 2 ^ e * 2 ^ f :=
  zpow_add₀ two_ne_zero e f

theorem overflow_eq : overflow = (2 ^ 53 - 1 / 2) * 2 ^ (971 : ℤ) := by
  rw [overflow, show (1024 : ℤ) = 54 + 970 by rfl, show (971 : ℤ) = 1 + 970 by rfl, two_zpow_add,
    two_zpow_add]
  generalize (2 : ℚ) ^ (970 : ℤ) = unit
  ring

theorem overflow_lt : overflow < 2 ^ (1024 : ℤ) :=
  sub_lt_self _ (by positivity)

theorem lt_overflow : 2 ^ (1023 : ℤ) < overflow := by
  have hunit : (0 : ℚ) < 2 ^ (971 : ℤ) := by positivity
  rw [overflow_eq, show (1023 : ℤ) = 52 + 971 by rfl, two_zpow_add]
  exact mul_lt_mul_of_pos_right (by norm_num) hunit

section

variable (hn : n ≠ 0) (hd : d ≠ 0)

include hd

theorem scaled_ne_zero (e : ℤ) : d * Nat.pow 2 e.toNat ≠ 0 :=
  Nat.mul_ne_zero hd (Nat.pow_pos (by decide)).ne'

theorem le_mantissaFor_iff {k : Nat} (hk : k % 2 = 0) :
    k ≤ mantissaFor n d ↔ ((k : ℚ) - 1 / 2) * 2 ^ exponentFor n d ≤ n / d := by
  have hpow : (0 : ℚ) < 2 ^ exponentFor n d := by positivity
  rw [mantissaFor, le_roundDiv_iff (scaled_ne_zero hd _) hk, scaled_eq, le_div_iff₀ hpow]

theorem abs_mantissaFor_sub_le (k : ℤ) :
    |(mantissaFor n d : ℚ) * 2 ^ exponentFor n d - n / d| ≤
      |k * 2 ^ exponentFor n d - (n : ℚ) / d| := by
  have hpow : (0 : ℚ) < 2 ^ exponentFor n d := by positivity
  have hnear := abs_roundDiv_sub_le_abs (n := n * Nat.pow 2 (-exponentFor n d).toNat)
    (scaled_ne_zero hd (exponentFor n d)) k
  rw [scaled_eq, ← mantissaFor] at hnear
  have hscale : ∀ a : ℚ, |a * 2 ^ exponentFor n d - n / d| =
      |a - n / d / 2 ^ exponentFor n d| * 2 ^ exponentFor n d := by
    intro a
    rw [← abs_of_pos hpow, ← abs_mul, abs_of_pos hpow, sub_mul, div_mul_cancel₀ _ hpow.ne']
  rw [hscale, hscale]
  exact mul_le_mul_of_nonneg_right hnear hpow.le

include hn

theorem mantissaFor_le : mantissaFor n d ≤ Nat.pow 2 53 := by
  obtain ⟨-, hlt, -⟩ := exponentFor_spec hn hd
  have hpow : (0 : ℚ) < 2 ^ exponentFor n d := by positivity
  have hnear := (abs_le.mp (abs_roundDiv_sub_le (n := n * Nat.pow 2 (-exponentFor n d).toNat)
    (scaled_ne_zero hd (exponentFor n d)))).2
  rw [scaled_eq, ← mantissaFor] at hnear
  have hscaled : (n : ℚ) / d / 2 ^ exponentFor n d < 2 ^ 53 := by
    rw [div_lt_iff₀ hpow, mul_comm, ← zpow_natCast (2 : ℚ) 53, ← zpow_add₀ two_ne_zero]
    exact hlt
  have hcast : (mantissaFor n d : ℚ) < 2 ^ 53 + 1 := by linarith
  have hlt : mantissaFor n d < 2 ^ 53 + 1 := by exact_mod_cast hcast
  exact Nat.le_of_lt_succ hlt

theorem normal_mantissaFor : Nat.pow 2 52 ≤ mantissaFor n d ∨ exponentFor n d = -1074 := by
  obtain ⟨-, -, hleast | hle⟩ := exponentFor_spec hn hd
  · exact .inr hleast
  · left
    rw [le_mantissaFor_iff hd (by decide)]
    refine le_trans ?_ hle
    rw [zpow_add₀ two_ne_zero, mul_comm]
    gcongr
    norm_num

/-- A mantissa of 53 bits and one more has the next exponent, and then only 52 bits are its own. -/
theorem overflow_le_iff : overflow ≤ n / d ↔
    971 < if mantissaFor n d = Nat.pow 2 53 then exponentFor n d + 1 else exponentFor n d := by
  obtain ⟨-, hlt, hle⟩ := exponentFor_spec hn hd
  have htop := le_mantissaFor_iff (n := n) hd (k := Nat.pow 2 53) (by decide)
  have hcast : ((Nat.pow 2 53 : ℕ) : ℚ) = 2 ^ 53 := by norm_num
  rw [hcast] at htop
  split
  · rename_i hm
    have hfull := htop.mp hm.ge
    constructor
    · intro h
      by_contra hexponent
      have hle : (2 : ℚ) ^ (exponentFor n d + 53) ≤ 2 ^ (1023 : ℤ) :=
        zpow_le_zpow_right₀ one_le_two (by omega)
      exact absurd (hlt.trans_le hle) (not_lt.mpr (lt_overflow.le.trans h))
    · intro h
      have hle : (2 : ℚ) ^ (971 : ℤ) ≤ 2 ^ exponentFor n d :=
        zpow_le_zpow_right₀ one_le_two (by omega)
      rw [overflow_eq]
      exact (mul_le_mul_of_nonneg_left hle (by norm_num)).trans hfull
  · rename_i hm
    have hnot : (n : ℚ) / d < (2 ^ 53 - 1 / 2) * 2 ^ exponentFor n d :=
      not_le.mp (mt htop.mpr fun h => hm (Nat.le_antisymm (mantissaFor_le hn hd) h))
    constructor
    · intro h
      by_contra hexponent
      have hle : (2 : ℚ) ^ exponentFor n d ≤ 2 ^ (971 : ℤ) :=
        zpow_le_zpow_right₀ one_le_two (by omega)
      rw [overflow_eq] at h
      have hbelow := mul_le_mul_of_nonneg_left hle (show (0 : ℚ) ≤ 2 ^ 53 - 1 / 2 by norm_num)
      exact absurd (h.trans_lt hnot) (not_lt.mpr hbelow)
    · intro h
      have hnormal : (2 : ℚ) ^ (exponentFor n d + 52) ≤ n / d := hle.resolve_left (by omega)
      have hpast : (2 : ℚ) ^ (1024 : ℤ) ≤ 2 ^ (exponentFor n d + 52) :=
        zpow_le_zpow_right₀ one_le_two (by omega)
      exact (overflow_lt.le.trans hpast).trans hnormal

omit hd in
/-- The ratio is rounded to a number of 53 bits, or of one bit more with a greater exponent. -/
theorem ofRatio?_eq : ofRatio? negative n d =
    if mantissaFor n d = Nat.pow 2 53 then mk? negative (Nat.pow 2 52) (exponentFor n d + 1)
    else mk? negative (mantissaFor n d) (exponentFor n d) := by
  rw [ofRatio?, if_neg hn]
  rfl

/-- The magnitude is the rounded mantissa's, whether or not it took a bit more. -/
theorem ofRatio?_of_lt (negative : Bool) (h : n / d < overflow) :
    ∃ x, ofRatio? negative n d = some x ∧ x.negative = negative ∧
      x.magnitude = mantissaFor n d * 2 ^ exponentFor n d := by
  have hexponent := mt (overflow_le_iff hn hd).mpr (not_le.mpr h)
  obtain ⟨hge, -, -⟩ := exponentFor_spec hn hd
  rw [ofRatio?_eq hn]
  split at hexponent
  · rename_i hm
    rw [if_pos hm]
    obtain ⟨x, hx, hsign, hmagnitude⟩ := mk?_of_le negative (m := Nat.pow 2 52)
      (e := exponentFor n d + 1) (by decide) (by omega) (.inl le_rfl) (by omega)
    refine ⟨x, hx, hsign, ?_⟩
    rw [hmagnitude, hm, add_comm, two_zpow_add]
    generalize (2 : ℚ) ^ exponentFor n d = unit
    norm_num
    ring
  · rename_i hm
    rw [if_neg hm]
    have hlt : mantissaFor n d < Nat.pow 2 53 := lt_of_le_of_ne (mantissaFor_le hn hd) hm
    exact mk?_of_le negative hlt hge (normal_mantissaFor hn hd) (by omega)

/-- A number with a smaller exponent is less than the least one that has all bits at this exponent,
and that one is not above the ratio. -/
theorem abs_mantissaFor_sub_le_abs_sub {a : ℚ} {y : Binary64} (ha : |a| = y.magnitude) :
    |(mantissaFor n d : ℚ) * 2 ^ exponentFor n d - n / d| ≤ |a - (n : ℚ) / d| := by
  obtain ⟨-, -, hleast⟩ := exponentFor_spec hn hd
  rcases le_or_gt (exponentFor n d) y.exponent with hle | hlt
  · have hmultiple :
        y.magnitude = ((y.mantissa * 2 ^ (y.exponent - exponentFor n d).toNat : ℤ) : ℚ) *
          2 ^ exponentFor n d := by
      push_cast
      rw [magnitude, ← zpow_natCast, Int.toNat_of_nonneg (by omega), mul_assoc, ← two_zpow_add]
      congr 2
      ring
    rcases eq_or_eq_neg_of_abs_eq ha with hsign | hsign
    · rw [hsign, hmultiple]
      exact abs_mantissaFor_sub_le hd _
    · rw [hsign, hmultiple, ← neg_mul, ← Int.cast_neg]
      exact abs_mantissaFor_sub_le hd _
  · have hfull : (2 : ℚ) ^ (exponentFor n d + 52) ≤ n / d :=
      hleast.resolve_left fun h => by have := y.exponent_ge; omega
    have hmagnitude : y.magnitude ≤ 2 ^ (exponentFor n d + 52) := by
      have hmantissa : (y.mantissa : ℚ) ≤ 2 ^ (53 : ℤ) := by exact_mod_cast y.mantissa_lt.le
      have hexponent : (2 : ℚ) ^ y.exponent ≤ 2 ^ (exponentFor n d - 1) :=
        zpow_le_zpow_right₀ one_le_two (by omega)
      calc
        y.magnitude ≤ 2 ^ (53 : ℤ) * 2 ^ (exponentFor n d - 1) :=
          mul_le_mul hmantissa hexponent (by positivity) (by positivity)
        _ = 2 ^ (exponentFor n d + 52) := by
          rw [← two_zpow_add]
          congr 1
          ring
    have ha' := (le_abs_self a).trans (ha.le.trans hmagnitude)
    have hnear := abs_mantissaFor_sub_le (n := n) hd (2 ^ 52)
    have hpower : ((2 ^ 52 : ℤ) : ℚ) * 2 ^ exponentFor n d = 2 ^ (exponentFor n d + 52) := by
      rw [two_zpow_add, mul_comm]
      norm_num
    rw [hpower, abs_of_nonpos (sub_nonpos.mpr hfull)] at hnear
    rw [abs_of_nonpos (sub_nonpos.mpr (ha'.trans hfull))]
    linarith

theorem ofRatio?_of_le (h : overflow ≤ n / d) : ofRatio? negative n d = none := by
  have hexponent := (overflow_le_iff hn hd).mp h
  rw [ofRatio?_eq hn]
  split at hexponent
  · rename_i hm
    rw [if_pos hm, mk?_of_lt hexponent]
  · rename_i hm
    rw [if_neg hm, mk?_of_lt hexponent]

end

theorem ofRatio?_eq_none_iff (negative : Bool) (hd : d ≠ 0) :
    ofRatio? negative n d = none ↔ overflow ≤ n / d := by
  by_cases hn : n = 0
  · have hzero : ofRatio? negative n d = some (zero negative) := if_pos hn
    rw [hzero, hn, Nat.cast_zero, zero_div]
    have hpositive : (0 : ℚ) < overflow := lt_trans (by positivity) lt_overflow
    simp [hpositive]
  · constructor
    · intro hnone
      by_contra hlt
      obtain ⟨x, hsome, -⟩ := ofRatio?_of_lt hn hd negative (not_le.mp hlt)
      simp [hnone] at hsome
    · exact ofRatio?_of_le hn hd

/-- No double is nearer to the ratio than the one it is rounded to. -/
theorem abs_toRat_sub_le (hd : d ≠ 0) (h : ofRatio? negative n d = some x) (y : Binary64) :
    |x.toRat - signed negative (n / d)| ≤ |y.toRat - signed negative (n / d)| := by
  by_cases hn : n = 0
  · have hzero : ofRatio? negative n d = some (zero negative) := if_pos hn
    rw [hzero, Option.some.injEq] at h
    have hratio : signed negative ((n : ℚ) / d) = 0 := by simp [hn, signed]
    rw [hratio, ← h, toRat_zero]
    simp
  · have hlt : (n : ℚ) / d < overflow := by
      rw [← not_le, ← ofRatio?_eq_none_iff negative hd, h]
      exact Option.some_ne_none x
    obtain ⟨x', hx', hsign, hmagnitude⟩ := ofRatio?_of_lt hn hd negative hlt
    obtain rfl : x = x' := Option.some.inj (h.symm.trans hx')
    have hy : |signed negative y.toRat| = y.magnitude := by rw [abs_signed, abs_toRat]
    calc
      |x.toRat - signed negative (n / d)| = |x.magnitude - n / d| := by
        rw [toRat, hsign, abs_signed_sub]
      _ ≤ |signed negative y.toRat - n / d| := by
        rw [hmagnitude]
        exact abs_mantissaFor_sub_le_abs_sub hn hd hy
      _ = |y.toRat - signed negative (n / d)| := by
        rw [← abs_signed_sub negative, signed_signed]

end StackTemplate.Binary64
