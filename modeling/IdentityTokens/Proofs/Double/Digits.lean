import Mathlib.Data.Nat.Cast.Order.Field
import Mathlib.Data.Nat.Digits.Defs
import IdentityTokens.Double.Shortest
import IdentityTokens.Proofs.Double.Rounding

/-! # The digits of a number

The digits that a number is printed with are a point of a decimal grid. The finest grid that is
tried has room for seventeen digits, and the point is above zero and not past the middle to the
next number. Zeros dropped at the end change the grid, but not the point. -/
namespace IdentityTokens.Double

variable {c num den : Nat} {k : Int} {x : Double}

theorem ten_zpow_pos (k : Int) : (0 : ℚ) < 10 ^ k := zpow_pos (by norm_num) k

/-! ## Points of a decimal grid -/

section Between

variable {low high d : Nat} {closed : Bool}

theorem le_of_between (hd : 0 < d) (h : between low high d closed c k = true) :
    (c : ℚ) * 10 ^ k ≤ high / d := by
  have hnat : c * (d * 10 ^ k.toNat) ≤ high * 10 ^ (-k).toNat := by
    rw [← Nat.mul_assoc]
    unfold between at h
    cases closed
    · simp only [Bool.false_eq_true, if_false, Bool.and_eq_true, decide_eq_true_eq] at h
      exact Nat.le_of_lt h.2
    · simp only [if_true, Bool.and_eq_true, decide_eq_true_eq] at h
      exact h.2
  have hshift := shift_div 10 high d k
  have hpow : (0 : ℚ) < (d * 10 ^ k.toNat : Nat) := by
    exact_mod_cast Nat.mul_pos hd (Nat.pow_pos (by decide))
  rw [← le_div_iff₀ (ten_zpow_pos k)]
  refine le_of_le_of_eq ?_ hshift
  rw [le_div_iff₀ hpow]
  exact_mod_cast hnat

theorem pos_of_between (hlow : 0 < low) (h : between low high d closed c k = true) : 0 < c := by
  have hpos : 0 < low * Nat.pow 10 (-k).toNat := Nat.mul_pos hlow (Nat.pow_pos (by decide))
  rcases Nat.eq_zero_or_pos c with rfl | hc
  · unfold between at h
    cases closed
    · simp at h
    · simp at h
      omega
  · exact hc

end Between

/-! ## The two neighbours of a number -/

theorem unit_eq (hm : 0 < x.mantissa) : x.ratio.1 / x.mantissa = 2 ^ x.exponent.toNat :=
  Nat.mul_div_cancel_left _ hm

/-- The step from one number to the next one. -/
theorem unit_div (x : Double) :
    ((2 ^ x.exponent.toNat : Nat) : ℚ) / x.ratio.2 = 2 ^ x.exponent := by
  have hone := ratio_div ⟨x.negative, 1, x.exponent⟩
  rw [value] at hone
  simpa [ratio] using hone

/-- The choice between two neighbours, of which only those inside an interval count. -/
theorem of_choice (inside : Nat → Bool) {floor : Nat} {up : Bool}
    (h : (if inside floor && inside (floor + 1) then some (if up then floor + 1 else floor)
      else if inside floor then some floor
      else if inside (floor + 1) then some (floor + 1)
      else none) = some c) : inside c = true ∧ c ≤ floor + 1 := by
  split at h
  · rename_i hboth
    rw [Bool.and_eq_true] at hboth
    cases up <;> cases h
    · exact ⟨hboth.1, Nat.le_succ _⟩
    · exact ⟨hboth.2, Nat.le_refl _⟩
  split at h
  · rename_i hfloor
    cases h
    exact ⟨hfloor, Nat.le_succ _⟩
  split at h
  · rename_i hnext
    cases h
    exact ⟨hnext, Nat.le_refl _⟩
  · cases h

/-- What is chosen for a number lies above zero, not past the middle to the next number, and at
most one above the digits that the number itself has on the grid. -/
theorem onGrid_spec (hm : 0 < x.mantissa) (h : x.onGrid k = some c) :
    0 < c ∧ (c : ℚ) * 10 ^ k ≤ (x.mantissa + 1 / 2) * 2 ^ x.exponent ∧
      (c : ℚ) ≤ x.value / 10 ^ k + 1 := by
  unfold onGrid at h
  dsimp only at h
  generalize hbelow : (if x.mantissa = Nat.pow 2 52 ∧ minExponent < x.exponent then
    x.ratio.1 / x.mantissa else 2 * (x.ratio.1 / x.mantissa)) = below at h
  obtain ⟨hinside, hfloor⟩ := of_choice (between (4 * x.ratio.1 - below)
    (4 * x.ratio.1 + 2 * (x.ratio.1 / x.mantissa)) (4 * x.ratio.2) (x.mantissa % 2 == 0) · k) h
  have hunit : 0 < 2 ^ x.exponent.toNat := Nat.pow_pos (by decide)
  have hd : 0 < x.ratio.2 := ratio_pos x
  have hn : x.ratio.1 = x.mantissa * 2 ^ x.exponent.toNat := rfl
  have hle : 2 ^ x.exponent.toNat ≤ x.ratio.1 := Nat.le_mul_of_pos_left _ hm
  rw [unit_eq hm] at hinside hbelow
  have hlow : 0 < 4 * x.ratio.1 - below := by
    split at hbelow <;> omega
  refine ⟨pos_of_between hlow hinside, (le_of_between (by omega) hinside).trans_eq ?_, ?_⟩
  · rw [hn, ← unit_div]
    have hdq : (x.ratio.2 : ℚ) ≠ 0 := by exact_mod_cast Nat.ne_of_gt hd
    push_cast
    field_simp
    ring
  · have hshift := shift_div 10 x.ratio.1 x.ratio.2 k
    rw [ratio_div] at hshift
    calc (c : ℚ) ≤ (x.ratio.1 * 10 ^ (-k).toNat / (x.ratio.2 * 10 ^ k.toNat) + 1 : Nat) :=
          Nat.cast_le.mpr hfloor
      _ ≤ (x.ratio.1 * 10 ^ (-k).toNat : Nat) / (x.ratio.2 * 10 ^ k.toNat : Nat) + 1 := by
          rw [Nat.cast_succ]
          exact add_le_add_left Nat.cast_div_le 1
      _ = x.value / 10 ^ k + 1 := by rw [hshift, Nat.cast_ofNat]

/-! ## Where the point stands -/

theorem lt_pow_length_toDigits (n : Nat) : n < 10 ^ (Nat.toDigits 10 n).length :=
  (Nat.length_toDigits_le_iff (by decide) Nat.length_toDigits_pos).mp (Nat.le_refl _)

theorem pow_length_toDigits_le {n : Nat} (hn : 0 < n) :
    10 ^ ((Nat.toDigits 10 n).length - 1) ≤ n := by
  rcases Nat.lt_or_ge 1 (Nat.toDigits 10 n).length with hlong | hshort
  · by_contra hlt
    have hle := (Nat.length_toDigits_le_iff (by decide) (by omega)).mpr (Nat.not_le.mp hlt)
    omega
  · rw [Nat.sub_eq_zero_of_le hshort]
    exact hn

/-- A number is below the power of ten at its point. -/
theorem div_lt_pointPosition (hn : 0 < num) (hd : 0 < den) :
    (num : ℚ) / den < 10 ^ pointPosition num den := by
  have hdq : (0 : ℚ) < den := by exact_mod_cast hd
  rw [pointPosition]
  split
  · have hlt : num < 10 ^ (Nat.toDigits 10 (num / den)).length * den :=
      (Nat.div_lt_iff_lt_mul hd).mp (lt_pow_length_toDigits _)
    rw [zpow_natCast, div_lt_iff₀ hdq]
    exact_mod_cast hlt
  · rename_i hlt
    have hrest : 0 < (den - 1) / num := Nat.div_pos (by omega) hn
    have hpow : 10 ^ ((Nat.toDigits 10 ((den - 1) / num)).length - 1) * num ≤ den - 1 :=
      (Nat.le_div_iff_mul_le hn).mp (pow_length_toDigits_le hrest)
    have hlength : 0 < (Nat.toDigits 10 ((den - 1) / num)).length := Nat.length_toDigits_pos
    generalize (Nat.toDigits 10 ((den - 1) / num)).length = length at *
    rw [show (1 : Int) - length = -((length - 1 : Nat) : Int) by omega, zpow_neg, zpow_natCast,
      div_lt_iff₀ hdq, inv_mul_eq_div, lt_div_iff₀ (by positivity)]
    have hnat : num * 10 ^ (length - 1) < den := by
      rw [Nat.mul_comm]
      omega
    exact_mod_cast hnat

theorem value_lt_pointPosition (hm : 0 < x.mantissa) :
    x.value < 10 ^ pointPosition x.ratio.1 x.ratio.2 := by
  rw [← ratio_div]
  exact div_lt_pointPosition (Nat.mul_pos hm (Nat.pow_pos (by decide))) (ratio_pos x)

/-- How powers of two and of ten compare at the ends of the range. -/
theorem sizes :
    Nat.pow 2 1074 < Nat.pow 10 324 ∧ Nat.pow 2 1024 < Nat.pow 10 (maxPower + 1) ∧
      Nat.pow 10 maxPower ≤ (2 ^ 54 - 3) * Nat.pow 2 970 ∧
      (2 ^ 54 - 3) * Nat.pow 2 970 < Nat.pow 10 (maxPower + 1) := by
  decide +kernel

/-- The least magnitude has its first digit behind 323 zeros. -/
theorem InRange.le_pointPosition (hx : x.InRange) :
    -323 ≤ pointPosition x.ratio.1 x.ratio.2 := by
  have hleast : Nat.pow 2 1074 < Nat.pow 10 324 := sizes.1
  have hden : x.ratio.2 ≤ 2 ^ 1074 := by
    have hmin : minExponent = -1074 := rfl
    have hexponent := hx.least
    exact Nat.pow_le_pow_right (by decide) (by omega)
  rw [pointPosition]
  split
  · omega
  · have hlength : (Nat.toDigits 10 ((x.ratio.2 - 1) / x.ratio.1)).length ≤ 324 := by
      refine (Nat.length_toDigits_le_iff (by decide) (by decide)).mpr ?_
      exact ((Nat.div_le_self _ _).trans ((Nat.sub_le _ _).trans hden)).trans_lt hleast
    omega

/-! ## Zeros at the end -/

/-- Zeros are dropped without moving the point of the grid. -/
theorem dropZeros_spec (fuel c : Nat) (k : Int) :
    ((dropZeros fuel c k).1 : ℚ) * 10 ^ (dropZeros fuel c k).2 = c * 10 ^ k ∧
      (dropZeros fuel c k).1 ≤ c ∧ k ≤ (dropZeros fuel c k).2 ∧
      (0 < c → 0 < (dropZeros fuel c k).1) := by
  induction fuel generalizing c k with
  | zero => exact ⟨rfl, Nat.le_refl c, Int.le_refl k, id⟩
  | succ fuel ih =>
    rw [dropZeros]
    split
    · rename_i hzero
      obtain ⟨hvalue, hle, hk, hpos⟩ := ih (c / 10) (k + 1)
      refine ⟨hvalue.trans ?_, hle.trans (Nat.div_le_self _ _), by omega,
        fun hc => hpos (by omega)⟩
      have hten : ((c / 10 : Nat) : ℚ) * 10 = c := by
        exact_mod_cast Nat.div_mul_cancel (Nat.dvd_of_mod_eq_zero hzero)
      rw [zpow_add₀ (by norm_num), zpow_one, ← hten]
      ring
    · exact ⟨rfl, Nat.le_refl c, Int.le_refl k, id⟩

/-! ## The digits that are found -/

/-- A point `c * 10 ^ k` that is printed for a number. -/
structure Prints (x : Double) (c : Nat) (k : Int) : Prop where
  pos : 0 < c
  digits : c ≤ 10 ^ 17
  below : (c : ℚ) * 10 ^ k ≤ (x.mantissa + 1 / 2) * 2 ^ x.exponent
  least : pointPosition x.ratio.1 x.ratio.2 - 17 ≤ k

theorem prints_of_onGrid (hm : 0 < x.mantissa) {i : Nat} (hi : i < 17)
    (h : x.onGrid (pointPosition x.ratio.1 x.ratio.2 - (i + 1 : Nat)) = some c) :
    x.Prints c (pointPosition x.ratio.1 x.ratio.2 - (i + 1 : Nat)) := by
  obtain ⟨hpos, hbelow, hnear⟩ := onGrid_spec hm h
  have hvalue := value_lt_pointPosition hm
  refine ⟨hpos, ?_, hbelow, by omega⟩
  generalize hk : pointPosition x.ratio.1 x.ratio.2 - (i + 1 : Nat) = k at *
  have hpoint : pointPosition x.ratio.1 x.ratio.2 = (i + 1 : Nat) + k := by omega
  have hpow : x.value / 10 ^ k < 10 ^ (i + 1) := by
    rw [div_lt_iff₀ (ten_zpow_pos k), ← zpow_natCast, ← zpow_add₀ (by norm_num), ← hpoint]
    exact hvalue
  have hle : c ≤ 10 ^ (i + 1) := by
    have hcast : (c : ℚ) < (10 ^ (i + 1) + 1 : Nat) := by
      push_cast
      linarith only [hpow, hnear]
    exact Nat.lt_succ_iff.mp (Nat.cast_lt.mp hcast)
  exact hle.trans (Nat.pow_le_pow_right (by decide) (by omega))

/-- **The digits of a number print it**, unless none are found. -/
theorem shortest_spec (hm : 0 < x.mantissa) :
    x.shortest = (0, 0) ∨ x.Prints x.shortest.1 x.shortest.2 := by
  unfold shortest
  dsimp only
  split
  · rename_i c k hfound
    obtain ⟨i, hi, hgrid⟩ := List.exists_of_findSome?_eq_some hfound
    obtain ⟨d, hc, heq⟩ := Option.map_eq_some_iff.mp hgrid
    cases heq
    have hprints := prints_of_onGrid hm (List.mem_range.mp hi) hc
    obtain ⟨hvalue, hle, hk, hpos⟩ := dropZeros_spec 17 c
      (pointPosition x.ratio.1 x.ratio.2 - (i + 1 : Nat))
    exact .inr ⟨hpos hprints.pos, hle.trans hprints.digits, hvalue.trans_le hprints.below,
      hprints.least.trans hk⟩
  · exact .inl rfl

end IdentityTokens.Double
