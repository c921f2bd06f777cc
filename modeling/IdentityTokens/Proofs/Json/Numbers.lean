import IdentityTokens.Json.Number
import IdentityTokens.Proofs.Text.Utf8

/-! # Whole numbers, written and read

A whole number is written in decimal without leading zeros. Where the bytes behind it do not
go on a number, all of its digits go into the significand, since its value fits in 64 bits,
and the number comes back. -/
namespace IdentityTokens.Json

/-- The bytes go on neither a number's digits nor, behind them, the number. -/
structure Stops (rest : Bytes) : Prop where
  digit : goesOn isDigit rest = false
  point : goesOn (· == '.'.toUInt8) rest = false
  exponent : goesOn isExponentMark rest = false

theorem stops_nil : Stops [] := ⟨rfl, rfl, rfl⟩

theorem stops_cons {b : UInt8} {rest : Bytes} (hdigit : isDigit b = false)
    (hpoint : b ≠ '.'.toUInt8) (hexponent : isExponentMark b = false) : Stops (b :: rest) :=
  ⟨hdigit, by simpa [goesOn] using hpoint, hexponent⟩

/-! ## Digits -/

theorem toNat_of_isDigit {c : Char} (hc : c.isDigit = true) : 48 ≤ c.toNat ∧ c.toNat ≤ 57 := by
  simpa [Char.isDigit, UInt32.le_iff_toNat_le] using hc

theorem digit?_ofNat : ∀ n < 58, 48 ≤ n → digit? (Char.ofNat n).toUInt8 = some (n - 48) := by
  decide

theorem digit?_toUInt8 {c : Char} (hc : c.isDigit = true) :
    digit? c.toUInt8 = some (c.toNat - '0'.toNat) := by
  obtain ⟨hlo, hhi⟩ := toNat_of_isDigit hc
  have hdigit := digit?_ofNat c.toNat (by omega) hlo
  rw [Char.ofNat_toNat] at hdigit
  exact hdigit

theorem isDigit_toUInt8 {c : Char} (hc : c.isDigit = true) : isDigit c.toUInt8 = true := by
  rw [isDigit, digit?_toUInt8 hc]
  rfl

theorem ascii_of_isDigit {c : Char} (hc : c.isDigit = true) : c.toNat < 0x80 := by
  have hbounds := toNat_of_isDigit hc
  omega

theorem isDigit_of_mem {n : Nat} {c : Char} (h : c ∈ Nat.toDigits 10 n) : c.isDigit = true :=
  Nat.isDigit_of_mem_toDigits (by decide) (by decide) h

theorem encode_toDigits (n : Nat) :
    Utf8.encode (Nat.toDigits 10 n) = (Nat.toDigits 10 n).map Char.toUInt8 :=
  Utf8.encode_of_ascii fun _ h => ascii_of_isDigit (isDigit_of_mem h)

theorem digitChar_ne_zero : ∀ n < 10, 0 < n → n.digitChar ≠ '0' := by decide

/-- No zero leads a positive number. By induction, since its last digit is set behind those of
its tenth. -/
theorem exists_toDigits {n : Nat} (hn : 0 < n) :
    ∃ c cs, Nat.toDigits 10 n = c :: cs ∧ c ≠ '0' := by
  induction n using Nat.strongRecOn with
  | ind n ih =>
    rcases Nat.lt_or_ge n 10 with hlt | hge
    · exact ⟨n.digitChar, [], Nat.toDigits_of_lt_base hlt, digitChar_ne_zero n hlt hn⟩
    · obtain ⟨c, cs, htenth, hc⟩ := ih (n / 10) (by omega) (by omega)
      refine ⟨c, cs ++ [(n % 10).digitChar], ?_, hc⟩
      rw [Nat.toDigits_of_base_le (by decide) hge, htenth]
      rfl

theorem le_ofDigitChars (cs : List Char) (value : Nat) :
    value ≤ Nat.ofDigitChars 10 cs value := by
  induction cs generalizing value with
  | nil => exact Nat.le_refl value
  | cons c cs ih =>
    rw [Nat.ofDigitChars_cons]
    have hmore := ih (10 * value + (c.toNat - '0'.toNat))
    omega

namespace Number

variable {rest : Bytes}

/-- All digits go in if the value that they come to fits. -/
theorem take_digits {limit value count : Nat} {cs : List Char}
    (hcs : ∀ c ∈ cs, c.isDigit = true) (hfits : Nat.ofDigitChars 10 cs value < limit)
    (hrest : goesOn isDigit rest = false) :
    take limit value count (cs.map Char.toUInt8 ++ rest) =
      (Nat.ofDigitChars 10 cs value, count + cs.length, rest) := by
  induction cs generalizing value count with
  | nil =>
    cases rest with
    | nil => rfl
    | cons b rest =>
      have hb : digit? b = none := by simpa [goesOn, isDigit] using hrest
      simp [take, hb, Nat.ofDigitChars_nil]
  | cons c cs ih =>
    rw [Nat.ofDigitChars_cons, Nat.mul_comm] at hfits
    have hstep : value * 10 + (c.toNat - '0'.toNat) < limit :=
      Nat.lt_of_le_of_lt (le_ofDigitChars cs _) hfits
    have hmore := @ih _ (count + 1) (fun d hd => hcs d (List.mem_cons_of_mem c hd)) hfits
    rw [List.map_cons, List.cons_append, take, digit?_toUInt8 (hcs c List.mem_cons_self)]
    simp only [if_pos hstep, hmore, Nat.ofDigitChars_cons, Nat.mul_comm, List.length_cons]
    congr 2
    omega

/-- Digits before the point or the exponent, without a zero that leads others. -/
structure Leading (cs : List Char) : Prop where
  digits : ∀ c ∈ cs, c.isDigit = true
  ne_nil : cs ≠ []
  zero : cs.head? = some '0' → cs = ['0']

theorem leading_toDigits (n : Nat) : Leading (Nat.toDigits 10 n) := by
  refine ⟨fun _ h => isDigit_of_mem h, Nat.toDigits_ne_nil, ?_⟩
  intro hzero
  rcases Nat.eq_zero_or_pos n with rfl | hn
  · exact Nat.toDigits_zero 10
  · obtain ⟨c, cs, hdigits, hc⟩ := exists_toDigits hn
    rw [hdigits, List.head?_cons] at hzero
    exact absurd (Option.some.inj hzero) hc

/-- The digits before the point go into the significand. -/
theorem read_leading {cs : List Char} (negative : Bool) (hcs : Leading cs)
    (hfits : Nat.ofDigitChars 10 cs 0 < significandLimit) (hrest : goesOn isDigit rest = false) :
    read negative (cs.map Char.toUInt8 ++ rest) =
      afterInteger negative (Nat.ofDigitChars 10 cs 0) rest := by
  obtain ⟨c, cs, rfl⟩ := List.exists_cons_of_ne_nil hcs.ne_nil
  by_cases hc : c = '0'
  · subst hc
    obtain rfl : cs = [] := (List.cons.inj (hcs.zero rfl)).2
    have hzero : digit? '0'.toUInt8 = some 0 := by decide
    have hvalue : Nat.ofDigitChars 10 ['0'] 0 = 0 := by decide
    rw [hvalue, List.map_singleton, List.singleton_append, read, hzero]
    simp only [hrest, if_false, Bool.false_eq_true]
  · obtain ⟨d, hd⟩ : ∃ d, c.toNat - '0'.toNat = d + 1 := by
      have hbounds := toNat_of_isDigit (hcs.digits c List.mem_cons_self)
      have hne : c.toNat ≠ '0'.toNat := fun h => hc (Char.toNat_inj.mp h)
      have hzero : '0'.toNat = 48 := rfl
      exact ⟨c.toNat - 49, by omega⟩
    rw [Nat.ofDigitChars_cons, hd, Nat.mul_zero, Nat.zero_add] at hfits ⊢
    rw [List.map_cons, List.cons_append, read, digit?_toUInt8 (hcs.digits c List.mem_cons_self), hd]
    simp only [take_digits (fun x hx => hcs.digits x (List.mem_cons_of_mem c hx)) hfits hrest,
      hrest, if_false, Bool.false_eq_true]

/-- What stands behind the digits of a natural number decides nothing but its sign. -/
theorem read_digits {n : Nat} (negative : Bool) (hn : n < significandLimit) (hrest : Stops rest) :
    read negative (Utf8.encode (Nat.toDigits 10 n) ++ rest) = plain negative n rest := by
  have hback : Nat.ofDigitChars 10 (Nat.toDigits 10 n) 0 = n :=
    Nat.ofDigitChars_toDigits (by decide) (by decide)
  rw [encode_toDigits, read_leading negative (leading_toDigits n) (by rwa [hback]) hrest.digit,
    hback]
  simp only [afterInteger, hrest.point, hrest.exponent, if_false, Bool.false_eq_true]

end Number

/-! ## Signs -/

theorem ofInt?_value (n : Whole) : Whole.ofInt? n.value = some n := dif_pos n.inRange

theorem natAbs_lt (n : Whole) : n.value.natAbs < Number.significandLimit := by
  have hrange := n.inRange
  have hmin : Int64.minValue.toInt = -9223372036854775808 := by decide
  have hsize : Number.significandLimit = 18446744073709551616 := rfl
  have hsize' : UInt64.size = 18446744073709551616 := rfl
  omega

/-- **A whole number that is not negative is read from its digits.** -/
theorem Number.read_natural {rest : Bytes} (n : Whole) (hn : 0 ≤ n.value) (hrest : Stops rest) :
    read false (Utf8.encode (renderInt n.value) ++ rest) = .ok (.whole n, rest) := by
  have habs : (n.value.natAbs : Int) = n.value := by omega
  rw [renderInt, if_neg (by omega), read_digits false (natAbs_lt n) hrest, plain]
  simp only [habs, ofInt?_value, if_false, Bool.false_eq_true]

/-- **A negative one is read from the digits behind its sign.** -/
theorem Number.read_negative {rest : Bytes} (n : Whole) (hn : n.value < 0) (hrest : Stops rest) :
    read true (Utf8.encode (Nat.toDigits 10 n.value.natAbs) ++ rest) = .ok (.whole n, rest) := by
  have habs : -(n.value.natAbs : Int) = n.value := by omega
  have hzero : n.value.natAbs ≠ 0 := by omega
  rw [read_digits true (natAbs_lt n) hrest, plain]
  simp only [habs, ofInt?_value, if_neg hzero, if_true]

end IdentityTokens.Json
