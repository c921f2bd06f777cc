import IdentityTokens.Proofs.Double.Decimals
import IdentityTokens.Proofs.Json.Decimals

/-! # Floating-point numbers, printed and read

What is printed for a number are its digits, laid out with a point or with an exponent. They are
always a number of the grammar. For a number in range they are read as one in range again: with
digits behind the point nothing gets out of range, and otherwise the digits are read as they
were found. -/
namespace IdentityTokens.Double

open Json

/-- The digits and the power of ten that are printed, none for zero. -/
def printed (x : Double) : Nat × Int := if x.isZero then (0, 0) else x.shortest

/-- The parts of the number that digits are laid out as. -/
def parts (digits : List Char) (point : Int) : Decimal :=
  if 0 < point ∧ point ≤ 16 then
    if digits.length ≤ point.toNat then
      ⟨digits ++ List.replicate (point.toNat - digits.length) '0', ['0'], none⟩
    else ⟨digits.take point.toNat, digits.drop point.toNat, none⟩
  else if -5 < point ∧ point ≤ 0 then
    ⟨['0'], List.replicate (-point).toNat '0' ++ digits, none⟩
  else
    ⟨digits.take 1, digits.drop 1,
      some (decide (point - 1 < 0), Nat.toDigits 10 (point - 1).natAbs)⟩

/-- The parts of what is printed for a number. -/
def decimal (x : Double) : Decimal :=
  let digits := Nat.toDigits 10 x.printed.1
  parts digits (digits.length + x.printed.2)

variable {x : Double} {digits : List Char} {point : Int}

/-! ## What is printed -/

theorem layout_eq (hne : digits ≠ []) : layout digits point = (parts digits point).text := by
  unfold layout parts
  split
  · dsimp only
    split
    · simp [Decimal.text, Decimal.tail, Decimal.exponentText]
    · rename_i hlong
      have hdrop : digits.drop point.toNat ≠ [] := by rwa [ne_eq, List.drop_eq_nil_iff]
      simp [Decimal.text, Decimal.tail, Decimal.exponentText, hdrop]
  split
  · simp [Decimal.text, Decimal.tail, Decimal.exponentText, hne]
  · simp [Decimal.text, Decimal.tail, Decimal.exponentText]

theorem render_eq (x : Double) :
    x.render = (if x.negative then ['-'] else []) ++ x.decimal.text := by
  have hmagnitude : (if x.isZero then ['0', '.', '0']
      else layout (Nat.toDigits 10 x.shortest.1)
        ((Nat.toDigits 10 x.shortest.1).length + x.shortest.2)) = x.decimal.text := by
    rw [decimal, ← layout_eq Nat.toDigits_ne_nil, printed]
    split <;> rfl
  rw [render, ← hmagnitude]
  cases x.negative <;> rfl

/-! ## The parts of a number -/

theorem isDigit_of_mem_replicate {n : Nat} {c : Char} (h : c ∈ List.replicate n '0') :
    c.isDigit = true := by
  rw [List.eq_of_mem_replicate h]
  rfl

theorem valid_parts (hdigits : Number.Leading digits)
    (hzero : digits.head? = some '0' → point = 1) : (parts digits point).Valid := by
  obtain ⟨c, cs, rfl⟩ := List.exists_cons_of_ne_nil hdigits.ne_nil
  have hmem := hdigits.digits
  have hnone : ∀ e ∈ (none : Option (Bool × List Char)),
      e.2 ≠ [] ∧ ∀ c ∈ e.2, c.isDigit = true := fun e he => absurd he (Option.not_mem_none e)
  have hlead : Number.Leading ['0'] := Number.leading_toDigits 0
  unfold parts
  split
  · rename_i hpoint
    split
    · refine ⟨⟨?_, List.cons_ne_nil _ _, ?_⟩, hlead.digits, hnone⟩
      · intro d hd
        exact (List.mem_append.mp hd).elim (hmem d) isDigit_of_mem_replicate
      · intro hhead
        obtain rfl : cs = [] := (List.cons.inj (hdigits.zero hhead)).2
        obtain rfl : c = '0' := Option.some.inj hhead
        rw [hzero rfl]
        rfl
    · rename_i hlong
      obtain ⟨n, hn⟩ : ∃ n, point.toNat = n + 1 := ⟨point.toNat - 1, by omega⟩
      rw [hn] at hlong ⊢
      refine ⟨⟨fun d hd => hmem d (List.mem_of_mem_take hd), List.cons_ne_nil _ _, ?_⟩,
        fun d hd => hmem d (List.mem_of_mem_drop hd), hnone⟩
      intro hhead
      have hone := hdigits.zero hhead
      rw [hone, List.length_singleton] at hlong
      omega
  split
  · refine ⟨hlead, ?_, hnone⟩
    intro d hd
    exact (List.mem_append.mp hd).elim isDigit_of_mem_replicate (hmem d)
  · refine ⟨⟨fun d hd => hmem d (List.mem_of_mem_take hd), List.cons_ne_nil _ _, ?_⟩,
      fun d hd => hmem d (List.mem_of_mem_drop hd), ?_⟩
    · intro hhead
      rw [hdigits.zero hhead]
      rfl
    · rintro e ⟨⟩
      exact ⟨Nat.toDigits_ne_nil, fun _ hd => isDigit_of_mem hd⟩

/-- Digits are written with a point, with zeros around them, or with an exponent. -/
theorem parts_cases (point : Int) (hne : digits ≠ []) :
    ((parts digits point).exponent = none ∧ (parts digits point).fraction ≠ [] ∧
      ∃ before behind, (parts digits point).whole ++ (parts digits point).fraction =
        List.replicate before '0' ++ digits ++ List.replicate behind '0' ∧
        (behind = 0 ∨ digits.length + behind ≤ 17)) ∨
    ((parts digits point).exponent =
        some (decide (point - 1 < 0), Nat.toDigits 10 (point - 1).natAbs) ∧
      (parts digits point).whole ++ (parts digits point).fraction = digits ∧
      (parts digits point).fraction.length = digits.length - 1) := by
  have hlength : 0 < digits.length := List.length_pos_iff.mpr hne
  unfold parts
  split
  · rename_i hpoint
    refine .inl ?_
    split
    · refine ⟨rfl, List.cons_ne_nil _ _, 0, point.toNat - digits.length + 1, ?_, .inr (by omega)⟩
      simp [List.replicate_succ']
    · rename_i hlong
      refine ⟨rfl, ?_, 0, 0, by simp, .inl rfl⟩
      rwa [ne_eq, List.drop_eq_nil_iff]
  split
  · refine .inl ⟨rfl, by simp [hne], (-point).toNat + 1, 0, ?_, .inl rfl⟩
    simp [List.replicate_succ]
  · exact .inr ⟨rfl, List.take_append_drop 1 digits, List.length_drop⟩

theorem printed_spec (x : Double) :
    x.printed = (0, 0) ∨ x.Prints x.printed.1 x.printed.2 := by
  rw [printed]
  split
  · exact .inl rfl
  · rename_i hzero
    refine shortest_spec (Nat.pos_of_ne_zero fun h => hzero ?_)
    rw [isZero, h]
    rfl

theorem valid_decimal (x : Double) : x.decimal.Valid := by
  refine valid_parts (Number.leading_toDigits _) fun hhead => ?_
  rcases x.printed_spec with hx | hx
  · rw [hx]
    rfl
  · obtain ⟨c, cs, hdigits, hc⟩ := exists_toDigits hx.pos
    rw [hdigits, List.head?_cons] at hhead
    exact absurd (Option.some.inj hhead) hc

/-! ## What is read -/

/-- Zeros before digits do not count, and those behind them fill seventeen digits at most. -/
theorem ofDigitChars_zeros_le {c before behind : Nat} (hc : c ≤ 10 ^ 17)
    (hbehind : behind = 0 ∨ (Nat.toDigits 10 c).length + behind ≤ 17) :
    Nat.ofDigitChars 10 (List.replicate before '0' ++ Nat.toDigits 10 c ++
      List.replicate behind '0') 0 ≤ 10 ^ 17 := by
  rw [Nat.ofDigitChars_append, Nat.ofDigitChars_append, Nat.ofDigitChars_replicate_zero,
    Nat.ofDigitChars_replicate_zero, Nat.mul_zero,
    Nat.ofDigitChars_toDigits (by decide) (by decide)]
  rcases hbehind with rfl | hbehind
  · rwa [Nat.pow_zero, Nat.one_mul]
  · calc 10 ^ behind * c ≤ 10 ^ behind * 10 ^ (Nat.toDigits 10 c).length :=
          Nat.mul_le_mul_left _ (lt_pow_length_toDigits c).le
      _ = 10 ^ ((Nat.toDigits 10 c).length + behind) := by rw [Nat.pow_add, Nat.mul_comm]
      _ ≤ 10 ^ 17 := Nat.pow_le_pow_right (by decide) hbehind

/-- A decimal that a number was printed as can be read. -/
structure Readable (d : Decimal) : Prop where
  broken : Number.Broken d
  significand : d.significand ≤ 10 ^ 17
  exponent : Number.FitsExponent d.exponent
  number : ∀ negative, (ofDecimal negative d.significand d.power).isSome

theorem shift_toDigits (n : Int) :
    Decimal.shift (some (decide (n < 0), Nat.toDigits 10 n.natAbs)) = n := by
  simp only [Decimal.shift, Nat.ofDigitChars_toDigits (b := 10) (by decide) (by decide),
    decide_eq_true_eq]
  split <;> omega

theorem readable_zero : Readable ⟨['0'], ['0'], none⟩ := by
  refine ⟨.inl (List.cons_ne_nil _ _), by decide, fun e he => absurd he (Option.not_mem_none e), ?_⟩
  intro negative
  obtain ⟨y, hy⟩ := exists_ofDecimal_neg (n := 1) negative (Nat.zero_le _) one_pos
  exact Option.isSome_iff_exists.mpr ⟨y, hy⟩

theorem Prints.printed_eq (h : x.Prints x.printed.1 x.printed.2) : x.printed = x.shortest := by
  have hpos := h.pos
  rw [printed] at hpos ⊢
  split
  · rename_i hzero
    rw [if_pos hzero] at hpos
    exact absurd hpos (lt_irrefl 0)
  · rfl

/-- The digits of a number in range are read as such with any power that is negative, and with
the power they are printed with. -/
theorem Prints.number (hx : x.InRange) (h : x.Prints x.printed.1 x.printed.2) (negative : Bool) :
    (ofDecimal negative x.printed.1 x.printed.2).isSome := by
  rcases Int.lt_or_le x.printed.2 0 with hneg | hnonneg
  · obtain ⟨n, hn⟩ := Int.eq_ofNat_of_zero_le (Int.neg_nonneg_of_nonpos (Int.le_of_lt hneg))
    rw [show x.printed.2 = -(n : Int) by omega]
    obtain ⟨y, hy⟩ := exists_ofDecimal_neg (n := n) negative h.digits (by omega)
    exact Option.isSome_iff_exists.mpr ⟨y, hy⟩
  · have heq := h.printed_eq
    rw [heq] at h hnonneg ⊢
    exact ofDecimal_shortest hx negative h hnonneg

/-- **What is printed for a number in range can be read.** -/
theorem readable_decimal (hx : x.InRange) : Readable x.decimal := by
  rcases x.printed_spec with hzero | hprints
  · rw [decimal, hzero]
    exact readable_zero
  have hpower := hprints.power_le hx
  have hleast := hx.le_pointPosition.trans (Int.le_add_of_sub_right_le hprints.least)
  have hlength : (Nat.toDigits 10 x.printed.1).length ≤ 18 :=
    (Nat.length_toDigits_le_iff (by decide) (by decide)).mpr
      (hprints.digits.trans_lt (by decide))
  have hpos := Nat.length_toDigits_pos (b := 10) (n := x.printed.1)
  have hdecimal : x.decimal = parts (Nat.toDigits 10 x.printed.1)
    ((Nat.toDigits 10 x.printed.1).length + x.printed.2) := rfl
  generalize hpoint : ((Nat.toDigits 10 x.printed.1).length : Int) + x.printed.2 = point at hdecimal
  have hcases := parts_cases point (Nat.toDigits_ne_nil (b := 10) (n := x.printed.1))
  rw [← hdecimal] at hcases
  rcases hcases with ⟨hnone, hne, before, behind, hall, hbehind⟩ | ⟨hexponent, hall, hfraction⟩
  · have hle : x.decimal.significand ≤ 10 ^ 17 := by
      rw [Decimal.significand, hall]
      exact ofDigitChars_zeros_le hprints.digits hbehind
    have hshift : x.decimal.power = -(x.decimal.fraction.length : Int) := by
      rw [Decimal.power, hnone, Decimal.shift, Int.zero_sub]
    refine ⟨.inl hne, hle, ?_, ?_⟩
    · rw [hnone]
      exact fun e he => absurd he (Option.not_mem_none e)
    · intro negative
      rw [hshift]
      exact Option.isSome_iff_exists.mpr
        (exists_ofDecimal_neg negative hle (List.length_pos_iff.mpr hne))
  · have hsignificand : x.decimal.significand = x.printed.1 := by
      rw [Decimal.significand, hall, Nat.ofDigitChars_toDigits (by decide) (by decide)]
    have hshift : x.decimal.power = x.printed.2 := by
      rw [Decimal.power, hexponent, shift_toDigits, hfraction]
      omega
    refine ⟨.inr (by rw [hexponent]; rfl), hsignificand ▸ hprints.digits, ?_, ?_⟩
    · rw [hexponent]
      rintro e ⟨⟩
      have hlimit : Number.exponentLimit = 2147483648 := rfl
      rw [Nat.ofDigitChars_toDigits (by decide) (by decide), hlimit]
      have hmax : maxPower = 308 := rfl
      omega
    · intro negative
      rw [hsignificand, hshift]
      exact hprints.number hx negative

/-! ## Reading back -/

theorem skip_decimal {rest : Bytes} (x : Double) (hrest : Stops rest) :
    Number.skip (Utf8.encode x.decimal.text ++ rest) = .ok rest :=
  Number.skip_decimal x.valid_decimal hrest

/-- **A number in range is read from what is printed for it behind its sign**, as a number. -/
theorem InRange.exists_read (hx : x.InRange) (negative : Bool) :
    ∃ y, ∀ rest, Stops rest →
      Number.read negative (Utf8.encode x.decimal.text ++ rest) = .ok (.double y, rest) := by
  have hreadable := readable_decimal hx
  have hfits : x.decimal.significand < Number.significandLimit :=
    hreadable.significand.trans_lt (by decide)
  obtain ⟨y, hy⟩ := Option.isSome_iff_exists.mp (hreadable.number negative)
  refine ⟨y, fun rest hrest => ?_⟩
  rw [Number.read_decimal x.valid_decimal hreadable.broken hfits hreadable.exponent hrest,
    Number.scaled, hy]

end IdentityTokens.Double
