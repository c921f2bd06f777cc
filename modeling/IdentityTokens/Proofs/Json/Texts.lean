import IdentityTokens.Json.Quotation
import IdentityTokens.Proofs.Text.Utf8

/-! # Texts in quotes, written and read

A character is written as an escape or as itself. An escape is read as the character it was
written for, and a character that stands for itself has no byte that a reader would stop at.
So a text comes back from between its quotes, whatever its characters are. -/
namespace IdentityTokens.Json

theorem hexDigit_ascii : ∀ n < 16, (hexDigit n).toNat < 0x80 := by decide

theorem hexValue?_hexDigit :
    ∀ n < 16, Quotation.hexValue? (hexDigit n).toUInt8 = some n := by decide

namespace Quotation

/-- A byte that a text goes on over. -/
structure Plain (b : UInt8) : Prop where
  ne_quote : b ≠ quote
  ne_backslash : b ≠ backslash
  not_control : ¬ b < 0x20

variable {c : Char} {b : UInt8} {r t : Bytes}

theorem plain_of_toNat (h : 0x80 ≤ b.toNat) : Plain b where
  ne_quote := by
    rintro rfl
    exact absurd h (by decide)
  ne_backslash := by
    rintro rfl
    exact absurd h (by decide)
  not_control := by
    simp [UInt8.lt_iff_toNat_lt]
    omega

theorem plain_of_ascii (hc : c.toNat < 0x80) (hcontrol : ¬ c.toNat < 0x20) (hquote : c ≠ '"')
    (hbackslash : c ≠ '\\') : Plain c.toUInt8 where
  ne_quote h := hquote (Utf8.eq_of_toUInt8 hc (by decide) h)
  ne_backslash h := hbackslash (Utf8.eq_of_toUInt8 hc (by decide) h)
  not_control := by
    rw [UInt8.lt_iff_toNat_lt, Utf8.toNat_toUInt8 hc]
    exact hcontrol

theorem plain_of_utf8EncodeChar (hcontrol : ¬ c.toNat < 0x20) (hquote : c ≠ '"')
    (hbackslash : c ≠ '\\') : ∀ b ∈ String.utf8EncodeChar c, Plain b := by
  intro b hb
  rcases Nat.lt_or_ge c.toNat 0x80 with hascii | hascii
  · rw [Utf8.utf8EncodeChar_of_lt hascii, List.mem_singleton] at hb
    subst hb
    exact plain_of_ascii hascii hcontrol hquote hbackslash
  · exact plain_of_toNat (Utf8.le_of_mem_utf8EncodeChar hascii hb)

/-! ## A character -/

/-- The digits of a control character that has no letter of its own. -/
def controlDigits (c : Char) : Bytes :=
  ['0', '0', hexDigit (c.toNat / 16), hexDigit (c.toNat % 16)].map Char.toUInt8

theorem encode_control (hc : c.toNat < 0x20) :
    Utf8.encode ['u', '0', '0', hexDigit (c.toNat / 16), hexDigit (c.toNat % 16)] =
      'u'.toUInt8 :: controlDigits c := by
  rw [Utf8.encode_of_ascii]
  · rfl
  · simp only [List.mem_cons, List.not_mem_nil, or_false]
    rintro d (rfl | rfl | rfl | rfl | rfl)
    · decide
    · decide
    · decide
    · exact hexDigit_ascii _ (by omega)
    · exact hexDigit_ascii _ (by omega)

theorem hex4_control (hc : c.toNat < 0x20) : hex4 (controlDigits c ++ r) = .ok (c.toNat, r) := by
  have hzero : hexValue? '0'.toUInt8 = some 0 := by decide
  have hhigh := hexValue?_hexDigit (c.toNat / 16) (by omega)
  have hlow := hexValue?_hexDigit (c.toNat % 16) (by omega)
  simp only [controlDigits, List.map_cons, List.map_nil, List.cons_append, List.nil_append, hex4,
    hzero, hhigh, hlow]
  congr 2
  omega

theorem escape_control (hc : c.toNat < 0x20) :
    escape (Utf8.encode ['u', '0', '0', hexDigit (c.toNat / 16), hexDigit (c.toNat % 16)] ++ r) =
      .ok (c, r) := by
  have htrail : isTrail c.toNat = false := by
    simp [isTrail]
    omega
  have hlead : isLead c.toNat = false := by
    simp [isLead]
    omega
  have hshort : shortEscape? 'u'.toUInt8 = none := by decide
  rw [encode_control hc, List.cons_append, escape, hshort]
  simp only [if_true, codePoint, hex4_control hc, bind, Except.bind, htrail, hlead,
    Char.ofNat_toNat]
  rfl

/-- A character is escaped, or it stands for itself. -/
theorem escapeChar_cases (c : Char) :
    (∃ e, escapeChar c = '\\' :: e ∧ ∀ r, escape (Utf8.encode e ++ r) = .ok (c, r)) ∨
      (escapeChar c = [c] ∧ ∀ b ∈ String.utf8EncodeChar c, Plain b) := by
  unfold escapeChar
  split
  case h_8 hquote hbackslash _ _ _ _ _ =>
    split
    · rename_i hcontrol
      exact .inl ⟨_, rfl, fun r => escape_control hcontrol⟩
    · rename_i hcontrol
      exact .inr ⟨rfl, plain_of_utf8EncodeChar hcontrol hquote hbackslash⟩
  all_goals exact .inl ⟨_, rfl, fun r => rfl⟩

/-! ## A text -/

theorem content_plain {fuel : Nat} {bs : Bytes} (hbs : ∀ b ∈ bs, Plain b)
    (hfuel : bs.length ≤ fuel) :
    content fuel (bs ++ t) =
      (content (fuel - bs.length) t).map fun (more, rest) => (bs ++ more, rest) := by
  induction bs generalizing fuel with
  | nil =>
    rw [List.nil_append, List.length_nil, Nat.sub_zero]
    cases content fuel t <;> rfl
  | cons b bs ih =>
    obtain ⟨fuel, rfl⟩ : ∃ n, fuel = n + 1 := ⟨fuel - 1, by rw [List.length_cons] at hfuel; omega⟩
    have hb := hbs b List.mem_cons_self
    have hmore := ih (fun d hd => hbs d (List.mem_cons_of_mem b hd))
      (Nat.le_of_succ_le_succ hfuel)
    rw [List.cons_append, content, if_neg hb.ne_quote, if_neg hb.ne_backslash,
      if_neg hb.not_control, hmore, List.length_cons, Nat.add_sub_add_right]
    cases content (fuel - bs.length) t <;> rfl

/-- The bytes between the quotes of a text. -/
def inside (s : List Char) : Bytes := Utf8.encode (s.flatMap escapeChar)

theorem inside_cons (c : Char) (s : List Char) :
    inside (c :: s) = Utf8.encode (escapeChar c) ++ inside s := by
  rw [inside, List.flatMap_cons, Utf8.encode_append]
  rfl

/-- Induction on the text: each character takes its own bytes, and fuel for each of them. -/
theorem content_inside {fuel : Nat} (s : List Char) (hfuel : (inside s).length < fuel) :
    content fuel (inside s ++ quote :: r) = .ok (Utf8.encode s, r) := by
  induction s generalizing fuel with
  | nil =>
    obtain ⟨fuel, rfl⟩ := Nat.exists_eq_add_of_lt hfuel
    rfl
  | cons c s ih =>
    rw [inside_cons, List.length_append] at hfuel
    rw [inside_cons, List.append_assoc, Utf8.encode_cons]
    rcases escapeChar_cases c with ⟨e, hc, he⟩ | ⟨hc, hplain⟩
    · have hback : Utf8.encode ('\\' :: e) = backslash :: Utf8.encode e := by
        rw [Utf8.encode_cons]
        rfl
      rw [hc, hback, List.length_cons] at hfuel
      obtain ⟨fuel, rfl⟩ : ∃ n, fuel = n + 1 := ⟨fuel - 1, by omega⟩
      have hmore := @ih fuel (by omega)
      rw [hc, hback, List.cons_append, content, if_neg (by decide), if_pos rfl, he]
      simp only [bind, Except.bind, hmore]
    · have hbytes : Utf8.encode [c] = String.utf8EncodeChar c := by
        rw [Utf8.encode_cons, Utf8.encode_nil, List.append_nil]
      rw [hc, hbytes] at hfuel
      rw [hc, hbytes, content_plain hplain (by omega), ih (by omega)]
      rfl

/-- **A text is read from its quotes.** -/
theorem read_inside (s : String) : read (inside s.toList ++ quote :: r) = .ok (s, r) := by
  have hfuel : (inside s.toList).length < (inside s.toList ++ quote :: r).length + 1 := by
    rw [List.length_append]
    omega
  have hcontent := content_inside (r := r) s.toList hfuel
  have hback : Text.ofBytes? (Utf8.encode s.toList) = some s := Text.ofBytes?_bytes s
  unfold read
  simp only [hcontent, bind, Except.bind, hback]

end Quotation

/-- The bytes of a text start with its quote. -/
theorem encode_renderText (s : String) :
    Utf8.encode (renderText s) =
      Quotation.quote :: (Quotation.inside s.toList ++ [Quotation.quote]) := by
  rw [renderText, List.cons_append, Utf8.encode_cons, Utf8.encode_append]
  rfl

end IdentityTokens.Json
