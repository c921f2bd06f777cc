import Mathlib.Algebra.Group.Int.Defs
import IdentityTokens.Clock

/-! # Sums of times

`clamp` is the integer itself as far as times go, so a comparison of a time with a sum
that can leave the range at one end only is the comparison of the integers. -/
namespace IdentityTokens

theorem toInt_clamp (n : Int) : (clamp n).toInt = max (-2 ^ 63) (min n (2 ^ 63 - 1)) := by
  have hlo : Int64.minValue.toInt = -2 ^ 63 := by decide
  have hhi : Int64.maxValue.toInt = 2 ^ 63 - 1 := by decide
  rw [clamp, hlo, hhi]
  split
  · rw [hlo]
    omega
  · split
    · rw [Int64.toInt_ofInt_of_le (by omega) (by omega)]
      omega
    · rw [hhi]
      omega

theorem lt_clamp_iff {n : Int} (h : n < 2 ^ 63) (t : Int64) : t < clamp n ↔ t.toInt < n := by
  have hl : -2 ^ 63 ≤ t.toInt := t.le_toInt
  rw [Int64.lt_iff_toInt_lt, toInt_clamp]
  omega

theorem clamp_lt_iff {n : Int} (h : -2 ^ 63 ≤ n) (t : Int64) : clamp n < t ↔ n < t.toInt := by
  have hu : t.toInt < 2 ^ 63 := t.toInt_lt
  rw [Int64.lt_iff_toInt_lt, toInt_clamp]
  omega

end IdentityTokens
