import Mathlib.Algebra.Order.Field.Power
import Mathlib.Tactic.FieldSimp
import Mathlib.Tactic.Linarith
import Mathlib.Tactic.NormNum
import Mathlib.Tactic.Positivity
import Mathlib.Tactic.Ring
import IdentityTokens.Double.Basic

/-! # Rounding to the nearest number

A quotient is rounded on a grid that its own size chooses, with 53 bits to its magnitude or at
the least exponent there is. One limit decides whether there is a nearest number at all: halfway
from the largest magnitude to what would come next. Below it a result is in range again, and
naturals keep their order when they are rounded. -/
namespace IdentityTokens.Double

/-- The magnitude of a number. -/
def value (x : Double) : ℚ := x.mantissa * 2 ^ x.exponent

/-- A magnitude of 53 bits between the least one and the largest one. -/
structure InRange (x : Double) : Prop where
  mantissa : x.mantissa < 2 ^ 53
  least : minExponent ≤ x.exponent
  exponent : x.exponent ≤ maxExponent

/-- Halfway from the largest magnitude to what would come next. -/
def limit : ℚ := (2 ^ 54 - 1) * 2 ^ 970

theorem value_nonneg (x : Double) : 0 ≤ x.value := by
  unfold value
  positivity

theorem two_zpow_ofNat (n : Nat) [n.AtLeastTwo] :
    (2 : ℚ) ^ (OfNat.ofNat n : Int) = 2 ^ (OfNat.ofNat n : Nat) :=
  zpow_ofNat 2 n

theorem two_zpow_le {i j : Int} (h : i ≤ j) : (2 : ℚ) ^ i ≤ 2 ^ j :=
  zpow_le_zpow_right₀ (by norm_num) h

theorem two_zpow_pos (i : Int) : (0 : ℚ) < 2 ^ i := zpow_pos two_pos i

theorem two_zpow_maxExponent : (2 : ℚ) ^ maxExponent = 2 * 2 ^ 970 := by
  rw [show maxExponent = 1 + (970 : Nat) from rfl, zpow_add₀ two_ne_zero, zpow_one, zpow_natCast]

/-- The limit in steps of the coarsest grid. -/
theorem limit_eq : limit = (2 ^ 54 - 1) / 2 * 2 ^ maxExponent := by
  rw [limit, two_zpow_maxExponent]
  generalize (2 : ℚ) ^ 970 = step
  ring

theorem limit_pos : 0 < limit := by
  rw [limit_eq]
  exact mul_pos (by norm_num) (two_zpow_pos _)

/-- The limit lies between the last two powers of two. -/
theorem two_zpow_le_limit : (2 : ℚ) ^ (maxExponent + 52) ≤ limit := by
  rw [limit_eq, add_comm, zpow_add₀ two_ne_zero]
  exact mul_le_mul_of_nonneg_right (by norm_num) (two_zpow_pos _).le

theorem limit_le_two_zpow : limit ≤ 2 ^ (maxExponent + 53) := by
  rw [limit_eq, add_comm, zpow_add₀ two_ne_zero]
  exact mul_le_mul_of_nonneg_right (by norm_num) (two_zpow_pos _).le

/-! ## Quotients on a grid -/

section Scaled

variable {num den : Nat} {e : Int}

theorem scaled_pos (num : Nat) (e : Int) (hd : 0 < den) : 0 < (scaled num den e).2 :=
  Nat.mul_pos hd (Nat.pow_pos (by decide))

/-- A quotient by a power, taken over to the side where it is a natural. -/
theorem shift_div (b num den : Nat) (e : Int) :
    ((num * b ^ (-e).toNat : Nat) : ℚ) / (den * b ^ e.toNat : Nat) = num / den / b ^ e := by
  obtain ⟨k, rfl | rfl⟩ := e.eq_nat_or_neg
  · have hneg : (-(k : Int)).toNat = 0 := by omega
    simp [hneg, div_div]
  · have hneg : (-(k : Int)).toNat = 0 := by omega
    simp [hneg]
    ring

theorem scaled_div (num den : Nat) (e : Int) :
    ((scaled num den e).1 : ℚ) / (scaled num den e).2 = num / den / 2 ^ e :=
  shift_div 2 num den e

theorem ratio_pos (x : Double) : 0 < x.ratio.2 := Nat.pow_pos (by decide)

theorem ratio_div (x : Double) : (x.ratio.1 : ℚ) / x.ratio.2 = x.value := by
  have hshift := shift_div 2 x.mantissa 1 (-x.exponent)
  rw [neg_neg, one_mul, Nat.cast_one, div_one, zpow_neg, div_inv_eq_mul] at hshift
  exact hshift

end Scaled

/-! ## The nearest point of the grid -/

section HalfEven

variable {n d : Nat}

theorem roundHalfEven_cases (n d : Nat) :
    (roundHalfEven n d = n / d ∧ 2 * (n % d) ≤ d) ∨
      (roundHalfEven n d = n / d + 1 ∧ d ≤ 2 * (n % d)) := by
  have hodd := Nat.mod_two_eq_zero_or_one (n / d)
  rw [roundHalfEven]
  split
  · exact .inl ⟨rfl, by omega⟩
  split
  · exact .inr ⟨rfl, by omega⟩
  rcases hodd with h | h
  · exact .inl ⟨by rw [h, Nat.add_zero], by omega⟩
  · exact .inr ⟨by rw [h], by omega⟩

theorem abs_roundHalfEven_sub_le (n : Nat) (hd : 0 < d) :
    |(roundHalfEven n d : ℚ) - n / d| ≤ 1 / 2 := by
  have hdq : (0 : ℚ) < d := by exact_mod_cast hd
  have hn : (n : ℚ) / d = (n / d : Nat) + (n % d : Nat) / d := by
    rw [eq_comm, ← sub_eq_zero]
    have hsplit : (d : ℚ) * (n / d : Nat) + (n % d : Nat) = n := by
      exact_mod_cast Nat.div_add_mod n d
    field_simp
    linarith
  have hlt : ((n % d : Nat) : ℚ) / d < 1 := by
    rw [div_lt_one hdq]
    exact_mod_cast Nat.mod_lt n hd
  have hpos : (0 : ℚ) ≤ (n % d : Nat) / d := by positivity
  rw [hn, abs_le]
  rcases roundHalfEven_cases n d with ⟨hm, hr⟩ | ⟨hm, hr⟩
  · have hhalf : ((n % d : Nat) : ℚ) / d ≤ 1 / 2 := by
      rw [div_le_div_iff₀ hdq two_pos]
      exact_mod_cast (by omega : n % d * 2 ≤ 1 * d)
    rw [hm]
    constructor <;> linarith
  · have hhalf : (1 : ℚ) / 2 ≤ (n % d : Nat) / d := by
      rw [div_le_div_iff₀ two_pos hdq]
      exact_mod_cast (by omega : 1 * d ≤ n % d * 2)
    rw [hm]
    push_cast
    constructor <;> linarith

/-- At the top of the grid the last tie goes up, since the point below it is odd. -/
theorem roundHalfEven_top (hd : 0 < d) (hlow : (2 ^ 54 - 1) * d ≤ 2 * n) (hhigh : n < 2 ^ 53 * d) :
    roundHalfEven n d = 2 ^ 53 := by
  have hquotient : n / d = 2 ^ 53 - 1 := by
    rw [Nat.div_eq_iff hd]
    omega
  have hrest : d ≤ 2 * (n % d) := by
    have hsplit := Nat.div_add_mod n d
    rw [hquotient] at hsplit
    omega
  rw [roundHalfEven, hquotient]
  rw [if_neg (by omega)]
  split <;> rfl

end HalfEven

/-! ## The exponent -/

section Exponent

variable {num den : Nat}

theorem two_zpow_log2_sub_lt (hn : 0 < num) (hd : 0 < den) :
    (2 : ℚ) ^ ((num.log2 : Int) - den.log2 - 1) < num / den := by
  have hnum : ((2 ^ num.log2 : Nat) : ℚ) ≤ num := by
    exact_mod_cast Nat.log2_self_le (Nat.ne_of_gt hn)
  have hden : (den : ℚ) < (2 ^ (den.log2 + 1) : Nat) := by
    exact_mod_cast Nat.lt_log2_self
  have hdq : (0 : ℚ) < den := by exact_mod_cast hd
  push_cast at hnum hden
  rw [sub_sub, zpow_sub₀ two_ne_zero, div_lt_div_iff₀ (by positivity) hdq]
  rw [zpow_natCast, show ((den.log2 : Int) + 1) = ((den.log2 + 1 : Nat) : Int) by push_cast; rfl,
    zpow_natCast]
  calc (2 : ℚ) ^ num.log2 * den < 2 ^ num.log2 * 2 ^ (den.log2 + 1) := by gcongr
    _ ≤ num * 2 ^ (den.log2 + 1) := by gcongr

theorem lt_two_zpow_log2_sub (hn : 0 < num) (hd : 0 < den) :
    (num : ℚ) / den < 2 ^ ((num.log2 : Int) - den.log2 + 1) := by
  have hnum : (num : ℚ) < (2 ^ (num.log2 + 1) : Nat) := by
    exact_mod_cast Nat.lt_log2_self
  have hden : ((2 ^ den.log2 : Nat) : ℚ) ≤ den := by
    exact_mod_cast Nat.log2_self_le (Nat.ne_of_gt hd)
  have hdq : (0 : ℚ) < den := by exact_mod_cast hd
  push_cast at hnum hden
  rw [show (num.log2 : Int) - den.log2 + 1 = ((num.log2 + 1 : Nat) : Int) - (den.log2 : Nat) by
    push_cast; ring, zpow_sub₀ two_ne_zero, zpow_natCast, zpow_natCast,
    div_lt_div_iff₀ hdq (by positivity)]
  have hnq : (0 : ℚ) < num := by exact_mod_cast hn
  calc (num : ℚ) * 2 ^ den.log2 ≤ num * den := by gcongr
    _ < 2 ^ (num.log2 + 1) * den := by gcongr

/-- The grid that a quotient is rounded on. -/
structure OnGrid (q : ℚ) (e : Int) : Prop where
  least : minExponent ≤ e
  below : q < 2 ^ (e + 53)
  above : minExponent < e → 2 ^ (e + 52) ≤ q

/-- The guess is one too high at most. -/
theorem onGrid_exponentFor (hn : 0 < num) (hd : 0 < den) :
    OnGrid (num / den) (exponentFor num den) := by
  have hlow := two_zpow_log2_sub_lt hn hd
  have hhigh := lt_two_zpow_log2_sub hn hd
  rw [exponentFor]
  dsimp only
  generalize hg : (num.log2 : Int) - den.log2 - 52 = guess
  rw [show (num.log2 : Int) - den.log2 - 1 = guess - 1 + 52 by omega] at hlow
  rw [show (num.log2 : Int) - den.log2 + 1 = guess + 53 by omega] at hhigh
  have hpow : (0 : ℚ) < 2 ^ guess := by positivity
  have hiff : (scaled num den guess).1 / (scaled num den guess).2 < Nat.pow 2 52 ↔
      (num : ℚ) / den < 2 ^ (guess + 52) := by
    have hdq : (0 : ℚ) < (scaled num den guess).2 := by
      exact_mod_cast scaled_pos num guess hd
    rw [Nat.div_lt_iff_lt_mul (scaled_pos num guess hd), add_comm guess, zpow_add₀ two_ne_zero,
      ← div_lt_iff₀ hpow, ← scaled_div, div_lt_iff₀ hdq]
    norm_cast
  have hmax {e : Int} (hb : (num : ℚ) / den < 2 ^ (e + 53))
      (ha : 2 ^ (e + 52) ≤ (num : ℚ) / den) : OnGrid (num / den) (max e minExponent) := by
    refine ⟨le_max_right _ _, hb.trans_le (two_zpow_le ?_), ?_⟩
    · exact Int.add_le_add_right (le_max_left _ _) 53
    · intro h
      rw [max_eq_left (le_of_lt ((lt_max_iff.mp h).resolve_right (lt_irrefl _)))]
      exact ha
  split
  · rename_i h
    refine hmax ?_ hlow.le
    rw [show guess - 1 + 53 = guess + 52 by omega]
    exact hiff.mp h
  · rename_i h
    exact hmax hhigh (not_lt.mp fun hlt => h (hiff.mpr hlt))

end Exponent

/-! ## The nearest number -/

section Nearest

variable {num den : Nat} {negative : Bool} {x : Double}

/-- The mantissa that a quotient is rounded to, as far as it is not carried over. -/
def mantissaFor (num den : Nat) : Nat :=
  roundHalfEven (scaled num den (exponentFor num den)).1 (scaled num den (exponentFor num den)).2

theorem abs_mantissaFor_sub_le (num : Nat) (hd : 0 < den) :
    |(mantissaFor num den : ℚ) - num / den / 2 ^ exponentFor num den| ≤ 1 / 2 := by
  rw [← scaled_div]
  exact abs_roundHalfEven_sub_le _ (scaled_pos num _ hd)

/-- Only with the least exponent is the first bit of a mantissa missing. -/
theorem le_mantissaFor (hn : 0 < num) (hd : 0 < den) (h : minExponent < exponentFor num den) :
    2 ^ 52 ≤ mantissaFor num den := by
  have habove := (onGrid_exponentFor hn hd).above h
  have hnear := (abs_le.mp (abs_mantissaFor_sub_le num hd)).1
  rw [add_comm, zpow_add₀ two_ne_zero, ← le_div_iff₀ (two_zpow_pos _), two_zpow_ofNat] at habove
  have hlow : ((2 ^ 52 : Nat) : ℚ) < (mantissaFor num den + 1 : Nat) := by
    push_cast
    linarith only [habove, hnear]
  exact Nat.lt_succ_iff.mp (Nat.cast_lt.mp hlow)

theorem mantissaFor_le (hn : 0 < num) (hd : 0 < den) : mantissaFor num den ≤ 2 ^ 53 := by
  have hnear := (abs_le.mp (abs_mantissaFor_sub_le num hd)).2
  have hbelow := (onGrid_exponentFor hn hd).below
  have hpow : (0 : ℚ) < 2 ^ exponentFor num den := by positivity
  rw [add_comm, zpow_add₀ two_ne_zero, ← div_lt_iff₀ hpow, two_zpow_ofNat] at hbelow
  have hlt : (mantissaFor num den : ℚ) < (2 ^ 53 + 1 : Nat) := by
    push_cast
    linarith only [hnear, hbelow]
  exact Nat.lt_succ_iff.mp (by exact_mod_cast hlt)

theorem nearest_eq (hn : 0 < num) : nearest negative num den =
    if mantissaFor num den = 2 ^ 53 then
      if maxExponent < exponentFor num den + 1 then none
      else some ⟨negative, 2 ^ 52, exponentFor num den + 1⟩
    else if maxExponent < exponentFor num den then none
    else some ⟨negative, mantissaFor num den, exponentFor num den⟩ := by
  have hm : roundHalfEven (scaled num den (exponentFor num den)).1
      (scaled num den (exponentFor num den)).2 = mantissaFor num den := rfl
  have hpow : Nat.pow 2 53 = 2 ^ 53 := rfl
  have hpow' : Nat.pow 2 52 = 2 ^ 52 := rfl
  rw [nearest, if_neg (Nat.ne_of_gt hn)]
  simp only [hm, hpow, hpow']
  by_cases h : mantissaFor num den = 2 ^ 53
  · simp only [if_pos h]
  · simp only [if_neg h]

/-- What is carried over has the value that it had before. -/
theorem value_of_nearest (hn : 0 < num) (h : nearest negative num den = some x) :
    x.value = mantissaFor num den * 2 ^ exponentFor num den := by
  rw [nearest_eq hn] at h
  split at h
  · rename_i hm
    split at h
    · cases h
    · cases h
      rw [value, hm, zpow_add₀ two_ne_zero]
      push_cast
      ring
  · split at h
    · cases h
    · cases h
      rfl

theorem inRange_of_nearest (hd : 0 < den) (h : nearest negative num den = some x) :
    x.InRange := by
  rcases Nat.eq_zero_or_pos num with rfl | hn
  · cases h
    exact ⟨by norm_num, le_rfl, show minExponent ≤ maxExponent by decide⟩
  have hleast := (onGrid_exponentFor hn hd).least
  have hle := mantissaFor_le hn hd
  rw [nearest_eq hn] at h
  split at h
  · split at h
    · cases h
    · rename_i he
      cases h
      exact ⟨by norm_num, hleast.trans (Int.le_of_lt (Int.lt_succ _)), not_lt.mp he⟩
  · rename_i hm
    split at h
    · cases h
    · rename_i he
      cases h
      exact ⟨lt_of_le_of_ne hle hm, hleast, not_lt.mp he⟩

/-- At the largest exponent a mantissa is rounded out of range from the limit on. -/
theorem mantissaFor_eq_top_iff (hn : 0 < num) (hd : 0 < den)
    (he : exponentFor num den = maxExponent) :
    mantissaFor num den = 2 ^ 53 ↔ limit ≤ (num : ℚ) / den := by
  have hnear := (abs_le.mp (abs_mantissaFor_sub_le num hd)).2
  have hpow := two_zpow_pos maxExponent
  rw [he] at hnear
  rw [limit_eq, ← le_div_iff₀ hpow]
  constructor
  · intro hm
    rw [hm] at hnear
    push_cast at hnear
    linarith only [hnear]
  · intro hge
    have hdq : (0 : ℚ) < (scaled num den maxExponent).2 := by
      exact_mod_cast scaled_pos num maxExponent hd
    have hbelow := (onGrid_exponentFor hn hd).below
    rw [he, add_comm, zpow_add₀ two_ne_zero, ← div_lt_iff₀ hpow, ← scaled_div,
      div_lt_iff₀ hdq, two_zpow_ofNat] at hbelow
    rw [← scaled_div, div_le_div_iff₀ two_pos hdq] at hge
    rw [mantissaFor, he]
    refine roundHalfEven_top (scaled_pos num maxExponent hd) ?_ (by exact_mod_cast hbelow)
    have hnat : (((2 ^ 54 - 1) * (scaled num den maxExponent).2 : Nat) : ℚ) ≤
        (2 * (scaled num den maxExponent).1 : Nat) := by
      push_cast
      linarith only [hge]
    exact_mod_cast hnat

/-- **A quotient has a nearest number exactly if it is below the limit.** On the last grid the tie
at the limit goes up, and so does all above it. -/
theorem nearest_isSome_iff (negative : Bool) (hd : 0 < den) :
    (nearest negative num den).isSome ↔ (num : ℚ) / den < limit := by
  rcases Nat.eq_zero_or_pos num with rfl | hn
  · exact iff_of_true rfl (by simpa using limit_pos)
  have hgrid := onGrid_exponentFor hn hd
  rw [nearest_eq hn]
  rcases lt_trichotomy (exponentFor num den) maxExponent with he | he | he
  · refine iff_of_true ?_ (hgrid.below.trans_le ((two_zpow_le (by omega)).trans two_zpow_le_limit))
    rw [if_neg (show ¬ maxExponent < exponentFor num den + 1 by omega), if_neg he.not_gt]
    split <;> rfl
  · have htop := mantissaFor_eq_top_iff hn hd he
    rw [he, if_pos (show maxExponent < maxExponent + 1 by omega), if_neg (lt_irrefl maxExponent)]
    split
    · rename_i hm
      exact iff_of_false Bool.false_ne_true (not_lt.mpr (htop.mp hm))
    · rename_i hm
      exact iff_of_true rfl (not_le.mp (mt htop.mpr hm))
  · have habove := hgrid.above (lt_trans (by decide) he)
    refine iff_of_false ?_ (not_lt.mpr (limit_le_two_zpow.trans ((two_zpow_le ?_).trans habove)))
    · rw [if_pos (show maxExponent < exponentFor num den + 1 by omega), if_pos he]
      split <;> exact Bool.false_ne_true
    · omega

theorem exists_nearest (negative : Bool) (hd : 0 < den) (h : (num : ℚ) / den < limit) :
    ∃ x, nearest negative num den = some x ∧ x.InRange := by
  obtain ⟨x, hx⟩ := Option.isSome_iff_exists.mp ((nearest_isSome_iff negative hd).mpr h)
  exact ⟨x, hx, inRange_of_nearest hd hx⟩

theorem InRange.mantissa_le (h : x.InRange) : (x.mantissa : ℚ) ≤ 2 ^ 53 - 1 := by
  have hcast : ((x.mantissa + 1 : Nat) : ℚ) ≤ (2 ^ 53 : Nat) := Nat.cast_le.mpr h.mantissa
  push_cast at hcast
  linarith

theorem InRange.value_lt (h : x.InRange) : x.value < limit := by
  have hm := h.mantissa_le
  have he : (2 : ℚ) ^ x.exponent ≤ 2 ^ maxExponent := two_zpow_le h.exponent
  calc x.value = x.mantissa * 2 ^ x.exponent := rfl
    _ ≤ (2 ^ 53 - 1) * 2 ^ maxExponent := mul_le_mul hm he (two_zpow_pos _).le (by norm_num)
    _ < limit := by
        rw [limit_eq]
        exact mul_lt_mul_of_pos_right (by norm_num) (two_zpow_pos _)

/-- **Naturals keep their order when they are rounded.** On one grid rounding is monotone, and a
finer grid ends where a coarser one begins. -/
theorem value_le_of_nearest {m n : Nat} {negative' : Bool} {y : Double} (hm : 0 < m) (hmn : m ≤ n)
    (hx : nearest negative m 1 = some x) (hy : nearest negative' n 1 = some y) :
    x.value ≤ y.value := by
  have hn : 0 < n := Nat.lt_of_lt_of_le hm hmn
  rw [value_of_nearest hm hx, value_of_nearest hn hy]
  rcases Nat.eq_or_lt_of_le hmn with rfl | hlt
  · exact le_rfl
  have hmgrid := onGrid_exponentFor hm one_pos
  have hngrid := onGrid_exponentFor hn one_pos
  have hmnear := abs_le.mp (abs_mantissaFor_sub_le m one_pos)
  have hnnear := abs_le.mp (abs_mantissaFor_sub_le n one_pos)
  have hq : ((m : Nat) : ℚ) / (1 : Nat) < (n : Nat) / (1 : Nat) := by
    simpa using hlt
  generalize ((m : Nat) : ℚ) / (1 : Nat) = p at *
  generalize ((n : Nat) : ℚ) / (1 : Nat) = q at *
  rcases lt_trichotomy (exponentFor m 1) (exponentFor n 1) with he | he | he
  · have hup : (2 : ℚ) ^ 52 ≤ mantissaFor n 1 := by
      exact_mod_cast le_mantissaFor hn one_pos (lt_of_le_of_lt hmgrid.least he)
    have hdown : (mantissaFor m 1 : ℚ) ≤ 2 ^ 53 := by
      exact_mod_cast mantissaFor_le hm one_pos
    calc (mantissaFor m 1 : ℚ) * 2 ^ exponentFor m 1
        ≤ 2 ^ 53 * 2 ^ exponentFor m 1 := by gcongr
      _ = 2 ^ 52 * 2 ^ (exponentFor m 1 + 1) := by
          rw [zpow_add₀ two_ne_zero]
          ring
      _ ≤ 2 ^ 52 * 2 ^ exponentFor n 1 := by
          gcongr 2 ^ 52 * ?_
          exact two_zpow_le (by omega)
      _ ≤ mantissaFor n 1 * 2 ^ exponentFor n 1 := by gcongr
  · rw [he] at hmnear ⊢
    have hpow : (0 : ℚ) < 2 ^ exponentFor n 1 := by positivity
    have hscaled : p / 2 ^ exponentFor n 1 < q / 2 ^ exponentFor n 1 := by gcongr
    have hcast : (mantissaFor m 1 : ℚ) < (mantissaFor n 1 + 1 : Nat) := by
      push_cast
      linarith [hmnear.2, hnnear.1]
    have hle : mantissaFor m 1 ≤ mantissaFor n 1 :=
      Nat.lt_succ_iff.mp (by exact_mod_cast hcast)
    gcongr
  · have habove := hmgrid.above (lt_of_le_of_lt hngrid.least he)
    have hstep : (2 : ℚ) ^ (exponentFor n 1 + 53) ≤ 2 ^ (exponentFor m 1 + 52) :=
      two_zpow_le (by omega)
    linarith [hngrid.below]

end Nearest

end IdentityTokens.Double
