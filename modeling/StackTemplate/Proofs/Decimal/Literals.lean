import StackTemplate.Decimal.Literal
import StackTemplate.Proofs.Decimal.Rounding

/-!
Rounding of decimal literals; the early exits do not change what a literal is rounded to.
-/

namespace StackTemplate

namespace Literal

def magnitude (x : Literal) : ℚ :=
  x.coefficient * 10 ^ x.exponent

theorem magnitude_eq (x : Literal) : x.magnitude =
    (x.coefficient * Nat.pow 10 x.exponent.toNat : ℕ) / (Nat.pow 10 (-x.exponent).toNat : ℕ) := by
  obtain ⟨k, hk | hk⟩ := Int.eq_nat_or_neg x.exponent
  · simp [magnitude, hk]
  · simp [magnitude, hk, div_eq_mul_inv]

theorem magnitude_nonneg (x : Literal) : 0 ≤ x.magnitude := by
  rw [magnitude]
  positivity

theorem overflow_le_magnitude {x : Literal} (h : x.coefficient ≠ 0) (hexponent : 310 ≤ x.exponent) :
    Binary64.overflow ≤ x.magnitude := by
  have hone : (1 : ℚ) ≤ x.coefficient := by exact_mod_cast Nat.one_le_iff_ne_zero.mpr h
  calc
    Binary64.overflow ≤ 2 ^ (1024 : ℤ) := Binary64.overflow_lt.le
    _ ≤ 2 ^ ((205 : ℤ) * 5) := zpow_le_zpow_right₀ one_le_two (by norm_num)
    _ ≤ 10 ^ ((62 : ℤ) * 5) := by
      rw [zpow_mul, zpow_mul]
      exact zpow_le_zpow_left₀ (by norm_num) (by positivity) (by norm_num)
    _ ≤ 10 ^ x.exponent := zpow_le_zpow_right₀ (by norm_num) hexponent
    _ ≤ x.magnitude := le_mul_of_one_le_left (by positivity) hone

theorem magnitude_lt_half_unit {x : Literal} (h : x.exponent + x.coefficient.log2 < -330) :
    x.magnitude < 2 ^ (-1075 : ℤ) := by
  have hcoefficient : (x.coefficient : ℚ) < 2 ^ (x.coefficient.log2 + 1) := by
    exact_mod_cast Nat.lt_log2_self
  calc
    x.magnitude < 2 ^ (x.coefficient.log2 + 1) * 10 ^ x.exponent :=
      mul_lt_mul_of_pos_right hcoefficient (by positivity)
    _ ≤ 10 ^ (x.coefficient.log2 + 1) * 10 ^ x.exponent := by gcongr; norm_num
    _ = 10 ^ ((x.coefficient.log2 : ℤ) + 1 + x.exponent) := by
      rw [zpow_add₀ (by norm_num)]
      congr 1
    _ ≤ 10 ^ ((66 : ℤ) * -5) := zpow_le_zpow_right₀ (by norm_num) (by omega)
    _ ≤ 2 ^ ((219 : ℤ) * -5) := by
      rw [zpow_mul, zpow_mul, zpow_neg, zpow_neg]
      exact inv_anti₀ (by positivity)
        (zpow_le_zpow_left₀ (by norm_num) (by positivity) (by norm_num))
    _ ≤ 2 ^ (-1075 : ℤ) := zpow_le_zpow_right₀ one_le_two (by norm_num)

theorem toBinary64?_cases (x : Literal) :
    (x.toBinary64? = some (Binary64.zero x.negative) ∧ x.magnitude < 2 ^ (-1075 : ℤ)) ∨
      (x.toBinary64? = none ∧ Binary64.overflow ≤ x.magnitude) ∨
      x.toBinary64? = Binary64.ofRatio? x.negative (x.coefficient * Nat.pow 10 x.exponent.toNat)
        (Nat.pow 10 (-x.exponent).toNat) := by
  rw [toBinary64?]
  split
  · rename_i hzero
    have hmagnitude : x.magnitude = 0 := by simp [magnitude, hzero]
    refine .inl ⟨rfl, ?_⟩
    rw [hmagnitude]
    positivity
  · rename_i hne
    split
    · rename_i hexponent
      exact .inr (.inl ⟨rfl, overflow_le_magnitude hne hexponent⟩)
    · split
      · rename_i hsmall
        exact .inl ⟨rfl, magnitude_lt_half_unit hsmall⟩
      · exact .inr (.inr rfl)

theorem pow_ten_ne_zero (k : Nat) : Nat.pow 10 k ≠ 0 :=
  (Nat.pow_pos (by decide)).ne'

theorem toBinary64?_eq_none_iff (x : Literal) :
    x.toBinary64? = none ↔ Binary64.overflow ≤ x.magnitude := by
  rcases toBinary64?_cases x with ⟨hsome, hlt⟩ | ⟨hnone, hle⟩ | hratio
  · have hunit : (2 : ℚ) ^ (-1075 : ℤ) ≤ 2 ^ (1023 : ℤ) :=
      zpow_le_zpow_right₀ one_le_two (by norm_num)
    have hbelow := hlt.trans_le (hunit.trans Binary64.lt_overflow.le)
    simp [hsome, hbelow]
  · simp [hnone, hle]
  · rw [hratio, Binary64.ofRatio?_eq_none_iff _ (pow_ten_ne_zero _), magnitude_eq]

/-- No double is nearer to the literal than the one it is read as. -/
theorem abs_toRat_sub_le {x : Literal} {z : Binary64} (h : x.toBinary64? = some z) (y : Binary64) :
    |z.toRat - Binary64.signed x.negative x.magnitude| ≤
      |y.toRat - Binary64.signed x.negative x.magnitude| := by
  rcases toBinary64?_cases x with ⟨hsome, hlt⟩ | ⟨hnone, -⟩ | hratio
  · rw [h, Option.some.injEq] at hsome
    rw [hsome]
    exact Binary64.abs_zero_sub_le x.magnitude_nonneg hlt.le y
  · simp [h] at hnone
  · rw [hratio] at h
    rw [magnitude_eq]
    exact Binary64.abs_toRat_sub_le (pow_ten_ne_zero _) h y

end Literal

end StackTemplate
