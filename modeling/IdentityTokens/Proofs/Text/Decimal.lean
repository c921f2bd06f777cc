import IdentityTokens.Proofs.Json.Numbers
import IdentityTokens.Text.Decimal

/-! # Decimal integers, written and read

A decimal integer is a sign or none with digits behind it. It is read exactly where it is within the
bounds: what digits come to so far never exceeds what all of them come to, so no digit is refused
on the way to an integer that fits. -/
namespace IdentityTokens.Text

/-- Digits and nothing else. -/
structure Digits (ds : List Char) : Prop where
  ne_nil : ds ≠ []
  digit : ∀ c ∈ ds, c.isDigit = true

/-- An integer in decimal. Leading zeros do not count. -/
inductive WritesInt : List Char → Int → Prop where
  | unsigned {ds : List Char} (h : Digits ds) : WritesInt ds (Nat.ofDigitChars 10 ds 0)
  | plus {ds : List Char} (h : Digits ds) : WritesInt ('+' :: ds) (Nat.ofDigitChars 10 ds 0)
  | minus {ds : List Char} (h : Digits ds) : WritesInt ('-' :: ds) (-Nat.ofDigitChars 10 ds 0)

theorem digit?_eq (c : Char) :
    digit? c = if c.isDigit then some (c.toNat - '0'.toNat) else none := by
  have h : ('0' ≤ c ∧ c ≤ '9') ↔ c.isDigit = true := by
    simp [Char.isDigit, Char.le_def]
  simp only [digit?, h]

variable {fits : Nat → Bool} {beyond : DecimalFault} {lo hi n : Int} {ds : List Char} {s : String}

/-- Induction on the digits: the value so far fits, and it is never more than the whole. -/
theorem digitsFrom_eq_ok_iff (hfits : ∀ {a b : Nat}, a ≤ b → fits b = true → fits a = true)
    {value : Nat} (hvalue : fits value = true) (m : Nat) :
    digitsFrom fits beyond value ds = .ok m ↔
      (∀ c ∈ ds, c.isDigit = true) ∧ m = Nat.ofDigitChars 10 ds value ∧ fits m = true := by
  induction ds generalizing value with
  | nil =>
    simp only [digitsFrom, Except.ok.injEq, Nat.ofDigitChars_nil]
    constructor
    · rintro rfl
      exact ⟨fun _ h => absurd h List.not_mem_nil, rfl, hvalue⟩
    · exact fun h => h.2.1.symm
  | cons c ds ih =>
    rw [digitsFrom, digit?_eq, Nat.ofDigitChars_cons, Nat.mul_comm]
    by_cases hc : c.isDigit = true
    · rw [if_pos hc]
      dsimp only
      by_cases hstep : fits (10 * value + (c.toNat - '0'.toNat)) = true
      · rw [if_pos hstep, ih hstep]
        simp [hc]
      · rw [if_neg hstep]
        constructor
        · exact fun h => nomatch h
        · rintro ⟨-, rfl, h⟩
          exact absurd (hfits (Json.le_ofDigitChars ds _) h) hstep
    · rw [if_neg hc]
      constructor
      · exact fun h => nomatch h
      · exact fun h => absurd (h.1 c List.mem_cons_self) hc

/-! ## Signs -/

theorem not_digits_of_sign {c : Char} (hc : c.isDigit = false) : ¬ Digits (c :: ds) := by
  intro h
  rw [h.digit c List.mem_cons_self] at hc
  cases hc

theorem not_digits_nil : ¬ Digits [] := fun h => h.ne_nil rfl

theorem writesInt_nil : ¬ WritesInt [] n := by
  rintro (h | _ | _)
  exact h.ne_nil rfl

theorem writesInt_plus_iff :
    WritesInt ('+' :: ds) n ↔ Digits ds ∧ n = Nat.ofDigitChars 10 ds 0 := by
  constructor
  · rintro (h | h | _)
    · exact absurd h (not_digits_of_sign rfl)
    · exact ⟨h, rfl⟩
  · rintro ⟨h, rfl⟩
    exact .plus h

theorem writesInt_minus_iff :
    WritesInt ('-' :: ds) n ↔ Digits ds ∧ n = -Nat.ofDigitChars 10 ds 0 := by
  constructor
  · rintro (h | _ | h)
    · exact absurd h (not_digits_of_sign rfl)
    · exact ⟨h, rfl⟩
  · rintro ⟨h, rfl⟩
    exact .minus h

theorem writesInt_unsigned_iff (hplus : ds.head? ≠ some '+') (hminus : ds.head? ≠ some '-') :
    WritesInt ds n ↔ Digits ds ∧ n = Nat.ofDigitChars 10 ds 0 := by
  constructor
  · rintro (h | h | h)
    · exact ⟨h, rfl⟩
    · exact absurd rfl hplus
    · exact absurd rfl hminus
  · rintro ⟨h, rfl⟩
    exact .unsigned h

/-! ## Bounds -/

/-- Digits behind a sign, or without one, are read if what they come to fits. -/
theorem map_digitsFrom_eq_ok_iff (hfits : ∀ {a b : Nat}, a ≤ b → fits b = true → fits a = true)
    (hzero : fits 0 = true) (hne : ds ≠ []) {sign : Nat → Int} :
    (digitsFrom fits beyond 0 ds).map sign = .ok n ↔
      (Digits ds ∧ n = sign (Nat.ofDigitChars 10 ds 0)) ∧
        fits (Nat.ofDigitChars 10 ds 0) = true := by
  have hread (m : Nat) : digitsFrom fits beyond 0 ds = .ok m ↔ _ :=
    digitsFrom_eq_ok_iff hfits hzero m
  rcases hr : digitsFrom fits beyond 0 ds with e | m
  · constructor
    · exact fun h => nomatch h
    · rintro ⟨⟨hdigits, -⟩, hfit⟩
      exact nomatch hr.symm.trans ((hread _).mpr ⟨hdigits.digit, rfl, hfit⟩)
  · obtain ⟨hdigits, rfl, hfit⟩ := (hread m).mp hr
    simp only [Except.map, Except.ok.injEq]
    exact ⟨fun h => ⟨⟨⟨hne, hdigits⟩, h.symm⟩, hfit⟩, fun h => h.1.2.symm⟩

theorem natural_eq_ok_iff (hhi : 0 ≤ hi) (hne : ds ≠ []) :
    (digitsFrom (fun m => (m : Int) ≤ hi) .tooLarge 0 ds).map Int.ofNat = .ok n ↔
      (Digits ds ∧ n = Nat.ofDigitChars 10 ds 0) ∧ n ≤ hi := by
  rw [map_digitsFrom_eq_ok_iff (fun hab hb => ?_) (by simpa using hhi) hne]
  · refine and_congr_right fun h => ?_
    rw [h.2]
    exact decide_eq_true_iff
  · simp only [decide_eq_true_eq] at hb ⊢
    omega

theorem negative_eq_ok_iff (hlo : lo ≤ 0) (hne : ds ≠ []) :
    (digitsFrom (fun m => lo ≤ -(m : Int)) .tooSmall 0 ds).map (fun m : Nat => -(m : Int)) = .ok n ↔
      (Digits ds ∧ n = -Nat.ofDigitChars 10 ds 0) ∧ lo ≤ n := by
  rw [map_digitsFrom_eq_ok_iff (fun hab hb => ?_) (by simpa using hlo) hne]
  · refine and_congr_right fun h => ?_
    rw [h.2]
    exact decide_eq_true_iff
  · simp only [decide_eq_true_eq] at hb ⊢
    omega

theorem WritesInt.nonneg (h : WritesInt ds n) (hminus : ds.head? ≠ some '-') : 0 ≤ n := by
  cases h with
  | unsigned h | plus h => exact Int.natCast_nonneg _
  | minus h => exact absurd rfl hminus

theorem negated_eq (r : Except DecimalFault Nat) :
    (r.map fun m => -(m : Int)) = r.map fun m : Nat => -(m : Int) := by
  cases r <;> rfl

/-- **A decimal integer is read exactly if it is within the bounds**, with a minus only where
there are negative numbers. -/
theorem decimal?_eq_ok_iff (hlo : lo ≤ 0) (hhi : 0 ≤ hi) :
    decimal? lo hi s = .ok n ↔
      WritesInt s.toList n ∧ lo ≤ n ∧ n ≤ hi ∧ (s.toList.head? = some '-' → lo < 0) := by
  unfold decimal?
  generalize s.toList = cs
  split
  case h_1 => simp [writesInt_nil]
  case h_2 => simp [writesInt_plus_iff, not_digits_nil]
  case h_3 => simp [writesInt_minus_iff, not_digits_nil]
  case h_4 ds hne =>
    have hplus : ('+' :: ds).head? ≠ some '-' := by simp
    rw [natural_eq_ok_iff hhi hne, ← writesInt_plus_iff]
    exact ⟨fun h => ⟨h.1, Int.le_trans hlo (h.1.nonneg hplus), h.2, fun h => absurd h hplus⟩,
      fun h => ⟨h.1, h.2.2.1⟩⟩
  case h_5 ds hne =>
    rw [negated_eq]
    by_cases hneg : lo < 0
    · rw [if_pos hneg, negative_eq_ok_iff hlo hne, writesInt_minus_iff]
      refine ⟨fun h => ⟨h.1, h.2, ?_, fun _ => hneg⟩, fun h => ⟨h.1, h.2.1⟩⟩
      rw [h.1.2]
      omega
    · rw [if_neg hneg]
      exact ⟨fun h => (nomatch h), fun h => absurd (h.2.2.2 rfl) hneg⟩
  case h_6 hnil _ _ hplus hminus =>
    have hhead : ∀ {c}, (∀ ds, cs ≠ c :: ds) → cs.head? ≠ some c := by
      intro c hc h
      obtain ⟨ds, rfl⟩ := List.head?_eq_some_iff.mp h
      exact hc ds rfl
    have hsign := hhead (c := '-') hminus
    rw [natural_eq_ok_iff hhi hnil, ← writesInt_unsigned_iff (hhead hplus) hsign]
    exact ⟨fun h => ⟨h.1, Int.le_trans hlo (h.1.nonneg hsign), h.2, fun h => absurd h hsign⟩,
      fun h => ⟨h.1, h.2.2.1⟩⟩

end IdentityTokens.Text
