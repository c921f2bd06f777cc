import IdentityTokens.Proofs.Json.Numbers

/-! # Decimal numbers, read and passed over

A number is written as digits, perhaps digits behind a point, and perhaps an exponent. It is
passed over whatever its digits are. It is read as its significand, all digits together, and a
power of ten, as long as the digits of both fit where they are counted. -/
namespace IdentityTokens.Json

/-- The parts of a number without its sign: its digits, those behind the point, and the exponent,
whether it is negative and its digits. -/
structure Decimal where
  whole : List Char
  fraction : List Char
  exponent : Option (Bool × List Char)

namespace Decimal

def exponentText : Option (Bool × List Char) → List Char
  | none => []
  | some (negative, digits) => 'e' :: (if negative then '-' else '+') :: digits

/-- What stands behind the digits before the point. -/
def tail (d : Decimal) : List Char :=
  (if d.fraction.isEmpty then [] else '.' :: d.fraction) ++ exponentText d.exponent

def text (d : Decimal) : List Char := d.whole ++ d.tail

/-- What an exponent adds to the power of ten. -/
def shift : Option (Bool × List Char) → Int
  | none => 0
  | some (negative, digits) =>
    let n := Nat.ofDigitChars 10 digits 0
    if negative then -(n : Int) else n

def significand (d : Decimal) : Nat := Nat.ofDigitChars 10 (d.whole ++ d.fraction) 0

def power (d : Decimal) : Int := shift d.exponent - d.fraction.length

/-- Digits stand where the grammar has them. -/
structure Valid (d : Decimal) : Prop where
  whole : Number.Leading d.whole
  fraction : ∀ c ∈ d.fraction, c.isDigit = true
  exponent : ∀ e ∈ d.exponent, e.2 ≠ [] ∧ ∀ c ∈ e.2, c.isDigit = true

variable {d : Decimal} {rest : Bytes}

theorem Valid.ascii (hd : d.Valid) {c : Char} (hc : c ∈ d.text) : c.toNat < 0x80 := by
  have hdigits : ∀ {cs : List Char}, (∀ c ∈ cs, c.isDigit = true) → c ∈ cs → c.toNat < 0x80 :=
    fun hcs hc => ascii_of_isDigit (hcs c hc)
  rw [text, tail, List.mem_append, List.mem_append] at hc
  rcases hc with hc | hc | hc
  · exact hdigits hd.whole.digits hc
  · split at hc
    · exact absurd hc List.not_mem_nil
    · rcases List.mem_cons.mp hc with rfl | hc
      · decide
      · exact hdigits hd.fraction hc
  · cases he : d.exponent with
    | none =>
      rw [he] at hc
      exact absurd hc List.not_mem_nil
    | some e =>
      obtain ⟨negative, digits⟩ := e
      rw [he, exponentText, List.mem_cons, List.mem_cons] at hc
      rcases hc with rfl | rfl | hc
      · decide
      · cases negative <;> decide
      · exact hdigits (hd.exponent _ he).2 hc

theorem Valid.encode_text (hd : d.Valid) :
    Utf8.encode d.text = d.whole.map Char.toUInt8 ++ d.tail.map Char.toUInt8 := by
  rw [Utf8.encode_of_ascii fun _ hc => hd.ascii hc, text, List.map_append]

/-- The first byte of a number is a digit. -/
theorem Valid.exists_digit (hd : d.Valid) :
    ∃ b r, Utf8.encode d.text = b :: r ∧ isDigit b = true := by
  obtain ⟨c, cs, hwhole⟩ := List.exists_cons_of_ne_nil hd.whole.ne_nil
  refine ⟨c.toUInt8, _, by rw [hd.encode_text, hwhole]; rfl, isDigit_toUInt8 ?_⟩
  exact hd.whole.digits c (hwhole ▸ List.mem_cons_self)

end Decimal

open Decimal

/-! ## Digits -/

section Digits

variable {cs : List Char} {rest : Bytes}

theorem goesOn_cons (p : UInt8 → Bool) (b : UInt8) (rest : Bytes) :
    goesOn p (b :: rest) = p b := rfl

theorem dropWhile_digits (hcs : ∀ c ∈ cs, c.isDigit = true) (hrest : goesOn isDigit rest = false) :
    (cs.map Char.toUInt8 ++ rest).dropWhile isDigit = rest := by
  rw [List.dropWhile_append_of_pos]
  · cases rest with
    | nil => rfl
    | cons b rest => exact List.dropWhile_cons_of_neg (by simpa [goesOn] using hrest)
  · intro b hb
    obtain ⟨c, hc, rfl⟩ := List.mem_map.mp hb
    exact isDigit_toUInt8 (hcs c hc)

theorem goesOn_digits (hcs : ∀ c ∈ cs, c.isDigit = true) (hne : cs ≠ []) :
    goesOn isDigit (cs.map Char.toUInt8 ++ rest) = true := by
  obtain ⟨c, cs, rfl⟩ := List.exists_cons_of_ne_nil hne
  exact isDigit_toUInt8 (hcs c List.mem_cons_self)

theorem behindSign_cons (negative : Bool) :
    behindSign ((if negative then '-' else '+').toUInt8 :: rest) = rest := by
  cases negative <;> rfl

/-- An exponent does not go on what stands before it. -/
theorem goesOn_exponentText {p : UInt8 → Bool} (e : Option (Bool × List Char))
    (hp : p 'e'.toUInt8 = false) (hrest : goesOn p rest = false) :
    goesOn p ((exponentText e).map Char.toUInt8 ++ rest) = false := by
  rcases e with _ | ⟨negative, digits⟩
  · exact hrest
  · exact hp

/-- What stands behind the digits before the point: an exponent, or a point and digits. -/
theorem tail_cases (d : Decimal) :
    (d.fraction = [] ∧ d.tail = exponentText d.exponent) ∨
      (d.fraction ≠ [] ∧ d.tail = '.' :: (d.fraction ++ exponentText d.exponent)) := by
  rw [tail]
  cases hf : d.fraction with
  | nil => exact .inl ⟨rfl, rfl⟩
  | cons c cs => exact .inr ⟨List.cons_ne_nil c cs, rfl⟩

theorem goesOn_tail (d : Decimal) (hrest : Stops rest) :
    goesOn isDigit (d.tail.map Char.toUInt8 ++ rest) = false := by
  rcases tail_cases d with ⟨-, htail⟩ | ⟨-, htail⟩
  · rw [htail]
    exact goesOn_exponentText d.exponent (by decide) hrest.digit
  · rw [htail]
    exact (by decide : isDigit '.'.toUInt8 = false)

end Digits

namespace Number

variable {d : Decimal} {e : Option (Bool × List Char)} {rest : Bytes} {negative : Bool}

/-- The digits of an exponent. -/
def IsExponent (e : Option (Bool × List Char)) : Prop :=
  ∀ x ∈ e, x.2 ≠ [] ∧ ∀ c ∈ x.2, c.isDigit = true

/-! ## Passing over -/

theorem skipAfterDigits_exponentText (he : IsExponent e) (hrest : Stops rest) :
    skipAfterDigits ((exponentText e).map Char.toUInt8 ++ rest) = .ok rest := by
  rcases e with _ | ⟨sign, digits⟩
  · exact if_neg (by simp [exponentText, hrest.exponent])
  · obtain ⟨hne, hdigits⟩ := he _ rfl
    have hmark : isExponentMark 'e'.toUInt8 = true := by decide
    have hgoes : goesOn isDigit (digits.map Char.toUInt8 ++ rest) = true :=
      goesOn_digits hdigits hne
    simp only [exponentText, List.map_cons, List.cons_append, skipAfterDigits, goesOn_cons,
      hmark, if_true, List.tail_cons, skipExponent, behindSign_cons, hgoes,
      dropWhile_digits hdigits hrest.digit]

/-- **A number is passed over.** -/
theorem skip_decimal (hd : d.Valid) (hrest : Stops rest) :
    skip (Utf8.encode d.text ++ rest) = .ok rest := by
  have htail := goesOn_tail d hrest
  obtain ⟨c, cs, hwhole⟩ := List.exists_cons_of_ne_nil hd.whole.ne_nil
  have hdigits : ∀ x ∈ c :: cs, x.isDigit = true := hwhole ▸ hd.whole.digits
  have hzero : ((c.toUInt8 == '0'.toUInt8) &&
      goesOn isDigit (cs.map Char.toUInt8 ++ (d.tail.map Char.toUInt8 ++ rest))) = false := by
    by_cases hc : c = '0'
    · have hcs : c :: cs = ['0'] := hwhole ▸ hd.whole.zero (by rw [hwhole, hc, List.head?_cons])
      rw [(List.cons.inj hcs).2, List.map_nil, List.nil_append, htail, Bool.and_false]
    · have hne : c.toUInt8 ≠ '0'.toUInt8 := fun h =>
        hc (Utf8.eq_of_toUInt8 (ascii_of_isDigit (hdigits c List.mem_cons_self)) (by decide) h)
      rw [beq_eq_false_iff_ne.mpr hne, Bool.false_and]
  rw [hd.encode_text, hwhole, List.append_assoc, List.map_cons, List.cons_append, skip,
    if_pos (isDigit_toUInt8 (hdigits c List.mem_cons_self)), hzero]
  simp only [Bool.false_eq_true, if_false,
    dropWhile_digits (fun x hx => hdigits x (List.mem_cons_of_mem c hx)) htail]
  rcases tail_cases d with ⟨-, htail⟩ | ⟨hne, htail⟩
  · have hpoint : goesOn (· == '.'.toUInt8)
        ((exponentText d.exponent).map Char.toUInt8 ++ rest) = false :=
      goesOn_exponentText d.exponent (by decide) hrest.point
    rw [htail, hpoint]
    exact skipAfterDigits_exponentText hd.exponent hrest
  · have hgoes : goesOn isDigit (d.fraction.map Char.toUInt8 ++
        ((exponentText d.exponent).map Char.toUInt8 ++ rest)) = true :=
      goesOn_digits hd.fraction hne
    have hexponent : goesOn isDigit ((exponentText d.exponent).map Char.toUInt8 ++ rest) = false :=
      goesOn_exponentText d.exponent (by decide) hrest.digit
    rw [htail, List.map_cons, List.map_append, List.cons_append, List.append_assoc]
    simp only [goesOn_cons, BEq.rfl, if_true, List.tail_cons, hgoes,
      dropWhile_digits hd.fraction hexponent]
    exact skipAfterDigits_exponentText hd.exponent hrest

/-! ## Reading -/

theorem exponentPart_digits {significand : Nat} {power : Int} (sign : Bool)
    {digits : List Char} (hne : digits ≠ []) (hdigits : ∀ c ∈ digits, c.isDigit = true)
    (hfits : Nat.ofDigitChars 10 digits 0 < exponentLimit) (hrest : Stops rest) :
    exponentPart negative significand power
        ((if sign then '-' else '+').toUInt8 :: (digits.map Char.toUInt8 ++ rest)) =
      scaled negative significand (power + shift (some (sign, digits))) rest := by
  have htake := @take_digits rest exponentLimit 0 0 digits hdigits hfits hrest.digit
  obtain ⟨c, cs, rfl⟩ := List.exists_cons_of_ne_nil hne
  have hc := isDigit_toUInt8 (hdigits c List.mem_cons_self)
  have hminus : goesOn (· == '-'.toUInt8)
      ((if sign then '-' else '+').toUInt8 :: ((c :: cs).map Char.toUInt8 ++ rest)) = sign := by
    cases sign <;> rfl
  rw [exponentPart, hminus]
  rw [List.map_cons, List.cons_append] at htake ⊢
  simp only [behindSign_cons, hc, if_true, htake, hrest.digit, if_false, Bool.false_eq_true]
  cases sign <;> rfl

/-- What the digits of an exponent come to fits where it is counted. -/
def FitsExponent (e : Option (Bool × List Char)) : Prop :=
  ∀ x ∈ e, Nat.ofDigitChars 10 x.2 0 < exponentLimit

theorem afterDigits_exponentText {significand : Nat} {power : Int} (he : IsExponent e)
    (hfits : FitsExponent e) (hrest : Stops rest) :
    afterDigits negative significand power ((exponentText e).map Char.toUInt8 ++ rest) =
      scaled negative significand (power + shift e) rest := by
  rcases e with _ | ⟨sign, digits⟩
  · rw [shift, Int.add_zero]
    exact if_neg (by simp [exponentText, hrest.exponent])
  · obtain ⟨hne, hdigits⟩ := he _ rfl
    have hmark : isExponentMark 'e'.toUInt8 = true := by decide
    simp only [exponentText, List.map_cons, List.cons_append, afterDigits, goesOn_cons, hmark,
      if_true, List.tail_cons]
    exact exponentPart_digits sign hne hdigits (hfits _ rfl) hrest

/-- A number with a fraction or an exponent is not a whole one. -/
def Broken (d : Decimal) : Prop := d.fraction ≠ [] ∨ d.exponent.isSome

/-- **A number that is not a whole one is read as its significand and its power of ten.** -/
theorem read_decimal (hd : d.Valid) (hbroken : Broken d) (hfits : d.significand < significandLimit)
    (hexponent : FitsExponent d.exponent) (hrest : Stops rest) :
    read negative (Utf8.encode d.text ++ rest) =
      scaled negative d.significand d.power rest := by
  have hsplit : d.significand =
      Nat.ofDigitChars 10 d.fraction (Nat.ofDigitChars 10 d.whole 0) := by
    rw [significand, Nat.ofDigitChars_append]
  have hwhole : Nat.ofDigitChars 10 d.whole 0 < significandLimit :=
    Nat.lt_of_le_of_lt (le_ofDigitChars _ _) (hsplit ▸ hfits)
  rw [hd.encode_text, List.append_assoc,
    read_leading negative hd.whole hwhole (goesOn_tail d hrest), hsplit, power]
  rcases tail_cases d with ⟨hnil, htail⟩ | ⟨hne, htail⟩
  · obtain ⟨⟨sign, digits⟩, he⟩ := Option.isSome_iff_exists.mp (hbroken.resolve_left (absurd hnil))
    obtain ⟨hne, hdigits⟩ := hd.exponent _ he
    have hmark : isExponentMark 'e'.toUInt8 = true := by decide
    have hpoint : ('e'.toUInt8 == '.'.toUInt8) = false := by decide
    rw [htail, he, hnil, Nat.ofDigitChars_nil, List.length_nil, Int.natCast_zero,
      Int.sub_zero]
    simp only [exponentText, List.map_cons, List.cons_append, afterInteger, goesOn_cons, hpoint,
      hmark, if_true, if_false, Bool.false_eq_true, List.tail_cons]
    rw [exponentPart_digits sign hne hdigits (hexponent _ he) hrest, Int.zero_add]
  · have hmore : goesOn isDigit ((exponentText d.exponent).map Char.toUInt8 ++ rest) = false :=
      goesOn_exponentText d.exponent (by decide) hrest.digit
    have htake := @take_digits _ significandLimit (Nat.ofDigitChars 10 d.whole 0) 0 d.fraction
      hd.fraction (hsplit ▸ hfits) hmore
    have hlength : ¬ 0 + d.fraction.length = 0 := by
      have := List.length_pos_iff.mpr hne
      omega
    rw [htail, List.map_cons, List.map_append, List.cons_append, List.append_assoc, afterInteger]
    simp only [goesOn_cons, BEq.rfl, if_true, List.tail_cons, fractionPart, htake, hmore, if_false,
      Bool.false_eq_true, if_neg hlength]
    rw [afterDigits_exponentText hd.exponent hexponent hrest]
    congr 1
    omega

end Number

end IdentityTokens.Json
