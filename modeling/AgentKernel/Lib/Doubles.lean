/-
  File:      AgentKernel/Lib/Doubles.lean
  Subject:   Rounding to the doubles of a language whose numbers they are.

  A double is a rational number, or one of the infinities that an overflow leaves. `nearest q` is
  the double next to `q`, the even one of two; whole numbers below 2⁵³ are doubles
  (`nearest_intCast`).
-/
import Mathlib

namespace AgentKernel.Lib

/-- A double that is a number. -/
abbrev Double := WithBot (WithTop ℚ)

/-- The whole number next to `q`, the even one of two. -/
def roundEven (q : ℚ) : ℤ :=
  if q - ⌊q⌋ < 1 / 2 then ⌊q⌋
  else if 1 / 2 < q - ⌊q⌋ then ⌊q⌋ + 1
  else if ⌊q⌋ % 2 = 0 then ⌊q⌋
  else ⌊q⌋ + 1

/-- The exponent of the last of the 53 digits of `q`; below the normal range they are fewer. -/
def lastDigit (q : ℚ) : ℤ := max (Int.log 2 |q| - 52) (-1074)

/-- A rounded number, or the infinity it is too large for. -/
def Double.ofRounded (q : ℚ) : Double :=
  if 2 ^ 1024 ≤ q then ⊤ else if q ≤ -2 ^ 1024 then ⊥ else ((q : WithTop ℚ) : Double)

/-- `q` with 53 digits. -/
def rounded (q : ℚ) : ℚ := roundEven (q / 2 ^ lastDigit q) * 2 ^ lastDigit q

/-- The double next to `q`. -/
def nearest (q : ℚ) : Double := .ofRounded (rounded q)

/-- The sum of a finite double and another one. -/
def Double.plus (q : ℚ) : Double → Double
  | ⊥ => ⊥
  | (⊤ : WithTop ℚ) => ⊤
  | ((p : ℚ) : WithTop ℚ) => nearest (q + p)

theorem roundEven_intCast (n : ℤ) : roundEven n = n := by
  unfold roundEven
  rw [Int.floor_intCast, sub_self, if_pos (by norm_num)]

/-- **Whole numbers below 2⁵³ are doubles.** -/
theorem nearest_intCast {n : ℤ} (h : |n| < 2 ^ 53) : nearest n = ((n : ℚ) : WithTop ℚ) := by
  have hlow : lastDigit (n : ℚ) ≤ 0 := by
    unfold lastDigit
    refine max_le ?_ (by norm_num)
    by_cases hn : n = 0
    · simp [hn]
    · have hpos : (0 : ℚ) < |(n : ℚ)| := by simpa using hn
      have hlog : Int.log 2 |(n : ℚ)| < 53 := by
        rw [← Int.lt_zpow_iff_log_lt (by norm_num) hpos]
        exact_mod_cast h
      omega
  obtain ⟨k, hk⟩ := Int.eq_ofNat_of_zero_le (neg_nonneg.mpr hlow)
  have hdigit : (2 : ℚ) ^ lastDigit (n : ℚ) = (2 ^ k)⁻¹ := by
    rw [← neg_neg (lastDigit (n : ℚ)), hk, zpow_neg]
    rfl
  have hquot : (n : ℚ) / 2 ^ lastDigit (n : ℚ) = ((n * 2 ^ k : ℤ) : ℚ) := by
    rw [hdigit, div_inv_eq_mul]
    push_cast
    rfl
  have hsame : (roundEven ((n : ℚ) / 2 ^ lastDigit (n : ℚ)) : ℚ) * 2 ^ lastDigit (n : ℚ) = n := by
    rw [hquot, roundEven_intCast, ← hquot]
    exact div_mul_cancel₀ _ (zpow_ne_zero _ (by norm_num))
  have hrange : |(n : ℚ)| < 2 ^ 1024 := by
    have hq : |(n : ℚ)| < 2 ^ 53 := by exact_mod_cast h
    exact hq.trans (pow_lt_pow_right₀ (by norm_num) (by norm_num))
  obtain ⟨hleft, hright⟩ := abs_lt.mp hrange
  unfold nearest Double.ofRounded rounded
  rw [hsame, if_neg hright.not_ge, if_neg hleft.not_ge]

end AgentKernel.Lib
