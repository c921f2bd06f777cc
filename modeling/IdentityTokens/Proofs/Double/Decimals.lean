import IdentityTokens.Proofs.Double.Digits

/-! # The number of a decimal

A decimal has a number as long as none of the steps to it passes the limit. Dividing by powers of
ten never does. Multiplying may, but rounding keeps the order of significands and of powers, so a
few products decide for all that are below them; and what is printed for a number is below one of
them, except for the largest number, whose digits are known. -/
namespace IdentityTokens.Double

variable {c k n : Nat} {x y p q : Double} {negative : Bool}

/-! ## Powers of ten -/

/-- Halfway between the largest number and the one before it. -/
def lastStep : Nat := (2 ^ 54 - 3) * Nat.pow 2 970

theorem lastStep_eq : (lastStep : ℚ) = (2 ^ 54 - 3) / 2 * 2 ^ maxExponent := by
  have hmantissa : ((2 ^ 54 - 3 : Nat) : ℚ) = 2 ^ 54 - 3 := by norm_num
  have hpow : ((Nat.pow 2 970 : Nat) : ℚ) = 2 ^ 970 := by
    rw [Nat.pow_eq, Nat.cast_pow, Nat.cast_ofNat]
  rw [two_zpow_maxExponent, lastStep, Nat.cast_mul, hmantissa, hpow]
  generalize (2 : ℚ) ^ 970 = step
  ring

theorem lastStep_lt : (lastStep : ℚ) < limit := by
  rw [lastStep_eq, limit_eq]
  exact mul_lt_mul_of_pos_right (by norm_num) (two_zpow_pos _)

theorem exists_nearest_of_le (negative : Bool) (h : n ≤ lastStep) :
    ∃ x, nearest negative n 1 = some x ∧ x.InRange := by
  refine exists_nearest negative one_pos ?_
  rw [Nat.cast_one, div_one]
  exact (Nat.cast_le.mpr h).trans_lt lastStep_lt

theorem pow_maxPower_le_lastStep : Nat.pow 10 maxPower ≤ lastStep := sizes.2.2.1

theorem lastStep_lt_pow : lastStep < Nat.pow 10 (maxPower + 1) := sizes.2.2.2

theorem exists_powerOfTen (hn : n ≤ maxPower) :
    ∃ p, powerOfTen n = some p ∧ p.InRange ∧ 1 ≤ p.value := by
  have hone : nearest false 1 1 = some ⟨false, 2 ^ 52, -52⟩ := by decide
  obtain ⟨p, hp, hrange⟩ := exists_nearest_of_le false
    ((Nat.pow_le_pow_right (by decide) hn).trans pow_maxPower_le_lastStep)
  refine ⟨p, hp, hrange, ?_⟩
  refine le_of_eq_of_le ?_ (value_le_of_nearest one_pos (Nat.one_le_pow _ _ (by decide)) hone hp)
  rw [value]
  norm_num

/-! ## Dividing -/

theorem ratio_mul_div (x y : Double) :
    ((x.ratio.1 * y.ratio.1 : Nat) : ℚ) / (x.ratio.2 * y.ratio.2 : Nat) = x.value * y.value := by
  rw [← ratio_div x, ← ratio_div y, Nat.cast_mul, Nat.cast_mul, mul_div_mul_comm]

theorem ratio_div_div (x y : Double) :
    ((x.ratio.1 * y.ratio.2 : Nat) : ℚ) / (x.ratio.2 * y.ratio.1 : Nat) = x.value / y.value := by
  rw [← ratio_div x, ← ratio_div y, Nat.cast_mul, Nat.cast_mul, div_div_div_eq]

theorem ratio_fst_pos (hp : 0 < p.value) : 0 < p.ratio.1 := by
  rw [← ratio_div] at hp
  refine Nat.pos_of_ne_zero fun h => ?_
  rw [h, Nat.cast_zero, zero_div] at hp
  exact lt_irrefl 0 hp

/-- A quotient by a number of at least one stays in range. -/
theorem exists_div (hx : x.InRange) (hp : 1 ≤ p.value) :
    ∃ y, x.div p = some y ∧ y.InRange := by
  have hpos : 0 < p.value := one_pos.trans_le hp
  refine exists_nearest _ (Nat.mul_pos (ratio_pos x) (ratio_fst_pos hpos)) ?_
  rw [ratio_div_div]
  exact (div_le_self x.value_nonneg hp).trans_lt hx.value_lt

/-- Induction on the steps of the largest power. -/
theorem exists_divPower (hx : x.InRange) (n : Nat) : ∃ y, x.divPower n = some y := by
  induction x, n using divPower.induct with
  | case1 x n hn =>
    obtain ⟨p, hp, -, hone⟩ := exists_powerOfTen hn
    obtain ⟨y, hy, -⟩ := exists_div hx hone
    exact ⟨y, by rw [divPower, if_pos hn, hp, Option.bind_some, hy]⟩
  | case2 x n hn hzero => exact ⟨x, by rw [divPower, if_neg hn, if_pos hzero]⟩
  | case3 x n hn hzero ih =>
    obtain ⟨p, hp, -, hone⟩ := exists_powerOfTen (Nat.le_refl maxPower)
    obtain ⟨y, hy, hrange⟩ := exists_div hx hone
    obtain ⟨z, hz⟩ := ih y hrange
    refine ⟨z, ?_⟩
    rw [divPower, if_neg hn, if_neg hzero, hp, Option.bind_some, hy, Option.bind_some, hz]

/-- Digits behind the point take no number out of range. -/
theorem exists_ofDecimal_neg (negative : Bool) (hc : c ≤ 10 ^ 17) (hn : 0 < n) :
    ∃ y, ofDecimal negative c (-(n : Int)) = some y := by
  have hmax : 10 ^ 17 ≤ lastStep :=
    (Nat.pow_le_pow_right (by decide) (by decide)).trans pow_maxPower_le_lastStep
  obtain ⟨x, hx, hrange⟩ := exists_nearest_of_le negative (hc.trans hmax)
  obtain ⟨y, hy⟩ := exists_divPower hrange (-(-(n : Int))).toNat
  exact ⟨y, by rw [ofDecimal, hx, Option.bind_some, if_pos (by omega), hy]⟩

/-! ## Multiplying -/

theorem ofDecimal_natCast (negative : Bool) (c : Nat) (hk : k ≤ maxPower) :
    ofDecimal negative c k =
      (nearest negative c 1).bind fun x => (powerOfTen k).bind x.mul := by
  have hsign : ¬ (k : Int) < 0 := by omega
  simp only [ofDecimal, if_neg hsign, Int.toNat_natCast, if_pos hk]

/-- A product with no larger factors is there with a product. -/
theorem mul_isSome_of_le (hxy : x.value ≤ y.value) (hpq : p.value ≤ q.value)
    (h : (y.mul q).isSome) : (x.mul p).isSome := by
  rw [mul, nearest_isSome_iff _ (Nat.mul_pos (ratio_pos _) (ratio_pos _)), ratio_mul_div] at h ⊢
  exact (mul_le_mul hxy hpq p.value_nonneg y.value_nonneg).trans_lt h

/-- A decimal has a number if a decimal has one that is larger in both of its parts. -/
theorem ofDecimal_isSome_of_le {d l : Nat} (negative : Bool) (hc : 0 < c) (hcd : c ≤ d)
    (hkl : k ≤ l) (hl : l ≤ maxPower) (h : (ofDecimal false d l).isSome) :
    (ofDecimal negative c k).isSome := by
  rw [ofDecimal_natCast _ _ hl] at h
  obtain ⟨z, hz⟩ := Option.isSome_iff_exists.mp h
  obtain ⟨y, hy, hz⟩ := Option.bind_eq_some_iff.mp hz
  obtain ⟨q, hq, hz⟩ := Option.bind_eq_some_iff.mp hz
  obtain ⟨p, hp, -, -⟩ := exists_powerOfTen (hkl.trans hl)
  have hlimit : (c : ℚ) / (1 : Nat) < limit := by
    have hd := (nearest_isSome_iff false one_pos).mp (Option.isSome_iff_exists.mpr ⟨y, hy⟩)
    rw [Nat.cast_one, div_one] at hd ⊢
    exact (Nat.cast_le.mpr hcd).trans_lt hd
  obtain ⟨x, hx, -⟩ := exists_nearest negative one_pos hlimit
  rw [ofDecimal_natCast _ _ (hkl.trans hl), hx, Option.bind_some, hp, Option.bind_some]
  refine mul_isSome_of_le (value_le_of_nearest hc hcd hx hy) ?_
    (Option.isSome_iff_exists.mpr ⟨z, hz⟩)
  exact value_le_of_nearest (Nat.pow_pos (by decide)) (Nat.pow_le_pow_right (by decide) hkl) hp hq

/-! ## What is printed -/

/-- The largest significand for a power of ten below the last step. -/
def topSignificand (k : Nat) : Nat := min (10 ^ 17) (lastStep / Nat.pow 10 k)

/-- Up to here all significands fit. -/
def lastLoose : Nat := 291

/-- The largest significands and the digits of the largest number, which have to be computed. -/
theorem largest :
    topSignificand lastLoose = 10 ^ 17 ∧
      (∀ i ≤ maxPower - lastLoose,
        (ofDecimal false (topSignificand (lastLoose + i)) (lastLoose + i : Nat)).isSome) ∧
      ∀ negative, shortest ⟨negative, 2 ^ 53 - 1, maxExponent⟩ = (17976931348623157, 292) ∧
        (ofDecimal negative 17976931348623157 292).isSome := by
  decide +kernel

theorem ofDecimal_isSome_of_le_lastStep (negative : Bool) (hc : 0 < c) (hdigits : c ≤ 10 ^ 17)
    (hlast : c * 10 ^ k ≤ lastStep) : (ofDecimal negative c k).isSome := by
  have hk : k ≤ maxPower := by
    have hmax : lastStep < Nat.pow 10 (maxPower + 1) := lastStep_lt_pow
    have hpow : 10 ^ k < 10 ^ (maxPower + 1) :=
      ((Nat.le_mul_of_pos_left _ hc).trans hlast).trans_lt hmax
    exact Nat.lt_succ_iff.mp ((Nat.pow_lt_pow_iff_right (by decide)).mp hpow)
  rcases Nat.le_total k lastLoose with hloose | htight
  · have htop : topSignificand lastLoose = 10 ^ 17 := largest.1
    exact ofDecimal_isSome_of_le negative hc (hdigits.trans_eq htop.symm) hloose (by decide)
      (largest.2.1 0 (by decide))
  · have htop : c ≤ topSignificand k :=
      le_min hdigits ((Nat.le_div_iff_mul_le (Nat.pow_pos (by decide))).mpr hlast)
    have hsome := largest.2.1 (k - lastLoose) (by omega)
    rw [Nat.add_sub_cancel' htight] at hsome
    exact ofDecimal_isSome_of_le negative hc htop (Nat.le_refl k) hk hsome

/-- All numbers but the largest end at the last step. -/
theorem InRange.middle_le (hx : x.InRange)
    (hlargest : x.exponent = maxExponent → x.mantissa ≠ 2 ^ 53 - 1) :
    (x.mantissa + 1 / 2) * 2 ^ x.exponent ≤ (lastStep : ℚ) := by
  rw [lastStep_eq]
  rcases lt_or_eq_of_le hx.exponent with he | he
  · have hhalf : (2 : ℚ) ^ x.exponent ≤ 1 / 2 * 2 ^ maxExponent := by
      refine (two_zpow_le (Int.le_sub_one_of_lt he)).trans_eq ?_
      rw [zpow_sub₀ two_ne_zero, zpow_one]
      ring
    have hm : (x.mantissa + 1 / 2 : ℚ) ≤ 2 ^ 53 := by linarith only [hx.mantissa_le]
    calc (x.mantissa + 1 / 2) * (2 : ℚ) ^ x.exponent
        ≤ 2 ^ 53 * (1 / 2 * 2 ^ maxExponent) :=
          mul_le_mul hm hhalf (two_zpow_pos _).le (by positivity)
      _ = 2 ^ 53 / 2 * 2 ^ maxExponent := by ring
      _ ≤ (2 ^ 54 - 3) / 2 * 2 ^ maxExponent :=
          mul_le_mul_of_nonneg_right (by norm_num) (two_zpow_pos _).le
  · have hne := hlargest he
    have hlt := hx.mantissa
    have hm : ((x.mantissa + 2 : Nat) : ℚ) ≤ (2 ^ 53 : Nat) := Nat.cast_le.mpr (by omega)
    push_cast at hm
    rw [he]
    refine mul_le_mul_of_nonneg_right ?_ (two_zpow_pos _).le
    linarith

/-- Nothing is printed with a power of ten that has no number. -/
theorem Prints.power_le {k : Int} (hx : x.InRange) (h : x.Prints c k) : k ≤ maxPower := by
  have hmiddle : (x.mantissa + 1 / 2) * 2 ^ x.exponent ≤ limit := by
    rw [limit_eq]
    refine mul_le_mul ?_ (two_zpow_le hx.exponent) (two_zpow_pos _).le (by norm_num)
    linarith only [hx.mantissa_le]
  have hmax : ((Nat.pow 2 1024 : Nat) : ℚ) < (Nat.pow 10 (maxPower + 1) : Nat) :=
    Nat.cast_lt.mpr sizes.2.1
  rw [Nat.pow_eq, Nat.pow_eq, Nat.cast_pow, Nat.cast_pow, Nat.cast_ofNat, Nat.cast_ofNat] at hmax
  by_contra hlt
  have hc : (1 : ℚ) ≤ c := Nat.one_le_cast.mpr h.pos
  have hten : (10 : ℚ) ^ (maxPower + 1) ≤ 10 ^ k := by
    rw [← zpow_natCast]
    exact zpow_le_zpow_right₀ (by norm_num) (by omega)
  have htop : limit ≤ 2 ^ 1024 := by
    rw [← zpow_natCast]
    exact limit_le_two_zpow
  have hk : (10 : ℚ) ^ k ≤ c * 10 ^ k := le_mul_of_one_le_left (ten_zpow_pos k).le hc
  exact absurd (hten.trans (hk.trans (h.below.trans (hmiddle.trans htop)))) (not_le.mpr hmax)

/-- **What is printed for a number has a number**, with either sign. -/
theorem ofDecimal_shortest (hx : x.InRange) (negative : Bool)
    (hprints : x.Prints x.shortest.1 x.shortest.2) (hk : 0 ≤ x.shortest.2) :
    (ofDecimal negative x.shortest.1 x.shortest.2).isSome := by
  by_cases hlargest : x.exponent = maxExponent ∧ x.mantissa = 2 ^ 53 - 1
  · obtain ⟨sign, mantissa, exponent⟩ := x
    obtain ⟨rfl, rfl⟩ := hlargest
    rw [(largest.2.2 sign).1]
    exact (largest.2.2 negative).2
  · obtain ⟨n, hn⟩ := Int.eq_ofNat_of_zero_le hk
    have hbelow := hprints.below.trans (hx.middle_le (not_and.mp hlargest))
    rw [hn] at hbelow ⊢
    refine ofDecimal_isSome_of_le_lastStep negative hprints.pos hprints.digits ?_
    rw [zpow_natCast] at hbelow
    exact_mod_cast hbelow

end IdentityTokens.Double
