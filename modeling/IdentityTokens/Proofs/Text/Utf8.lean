import IdentityTokens.Text.Utf8

/-! # Text as bytes and back

A character is written in one to four bytes, and whatever follows them it is read from just
those. So text comes back from its bytes. -/
namespace IdentityTokens

namespace Utf8

variable {a b : UInt8}

/-! ## What the bytes of a character are -/

theorem isTail_iff : isTail b = true ↔ 0x80 ≤ b.toNat ∧ b.toNat < 0xC0 := by
  simp [isTail, UInt8.le_iff_toNat_le, UInt8.lt_iff_toNat_lt]

/-- A byte that may come later may come second, but for the bounds that keep overlong forms,
surrogates and what is past the last code point out. -/
theorem isSecond_of_isTail (hb : isTail b = true) (hE0 : a.toNat = 0xE0 → 0xA0 ≤ b.toNat)
    (hED : a.toNat = 0xED → b.toNat < 0xA0) (hF0 : a.toNat = 0xF0 → 0x90 ≤ b.toNat)
    (hF4 : a.toNat = 0xF4 → b.toNat < 0x90) : isSecond a b = true := by
  have hbounds := isTail_iff.mp hb
  simp only [isSecond, beq_iff_eq, ← UInt8.toNat_inj]
  split
  · rename_i h
    simp [UInt8.le_iff_toNat_le, UInt8.lt_iff_toNat_lt, hE0 h, hbounds.2]
  split
  · rename_i h
    simp [UInt8.le_iff_toNat_le, UInt8.lt_iff_toNat_lt, hED h, hbounds.1]
  split
  · rename_i h
    simp [UInt8.le_iff_toNat_le, UInt8.lt_iff_toNat_lt, hF0 h, hbounds.2]
  split
  · rename_i h
    simp [UInt8.le_iff_toNat_le, UInt8.lt_iff_toNat_lt, hF4 h, hbounds.1]
  · exact hb

/-- No code point is a surrogate, and none is past the last one. -/
theorem toNat_valid (c : Char) : c.toNat < 0xD800 ∨ 0xDFFF < c.toNat ∧ c.toNat < 0x110000 :=
  c.valid

theorem toNat_ofNat {n : Nat} (h : n < 256) : (UInt8.ofNat n).toNat = n :=
  UInt8.toNat_ofNat_of_lt' h

/-! ## Reading what was written -/

section Pieces

variable {r : Bytes} {n : Nat}

theorem pieces_one (hn : n < 0x80) :
    pieces (UInt8.ofNat n :: r) = some (Char.ofNat n) :: pieces r := by
  have ha : (UInt8.ofNat n).toNat = n := toNat_ofNat (by omega)
  have h1 : UInt8.ofNat n < 0x80 := by
    rw [UInt8.lt_iff_toNat_lt, ha]
    exact hn
  rw [pieces.eq_def]
  simp only [if_pos h1, char1, ha]

theorem pieces_two (hlo : 0x80 ≤ n) (hhi : n < 0x800) :
    pieces (UInt8.ofNat (n / 64 % 32 + 0xC0) :: UInt8.ofNat (n % 64 + 0x80) :: r) =
      some (Char.ofNat n) :: pieces r := by
  have ha : (UInt8.ofNat (n / 64 % 32 + 0xC0)).toNat = n / 64 % 32 + 0xC0 :=
    toNat_ofNat (by omega)
  have hb : (UInt8.ofNat (n % 64 + 0x80)).toNat = n % 64 + 0x80 := toNat_ofNat (by omega)
  generalize UInt8.ofNat (n / 64 % 32 + 0xC0) = a at ha ⊢
  generalize UInt8.ofNat (n % 64 + 0x80) = b at hb ⊢
  have h1 : ¬ a < 0x80 := by simp [UInt8.lt_iff_toNat_lt, ha]
  have h2 : ¬ a < 0xC2 := by simp [UInt8.lt_iff_toNat_lt, ha]; omega
  have h3 : a < 0xE0 := by simp [UInt8.lt_iff_toNat_lt, ha]; omega
  have htail : isTail b = true := isTail_iff.mpr (by omega)
  have hc : char2 a b = Char.ofNat n := by
    rw [char2, low, ha, hb]
    congr 1
    omega
  rw [pieces.eq_def]
  simp only [if_neg h1, if_neg h2, if_pos h3, htail, if_true, hc]

theorem pieces_three (hlo : 0x800 ≤ n) (hhi : n < 0x10000) (hn : n < 0xD800 ∨ 0xDFFF < n) :
    pieces (UInt8.ofNat (n / 4096 % 16 + 0xE0) :: UInt8.ofNat (n / 64 % 64 + 0x80) ::
      UInt8.ofNat (n % 64 + 0x80) :: r) = some (Char.ofNat n) :: pieces r := by
  have ha : (UInt8.ofNat (n / 4096 % 16 + 0xE0)).toNat = n / 4096 % 16 + 0xE0 :=
    toNat_ofNat (by omega)
  have hb : (UInt8.ofNat (n / 64 % 64 + 0x80)).toNat = n / 64 % 64 + 0x80 :=
    toNat_ofNat (by omega)
  have hc : (UInt8.ofNat (n % 64 + 0x80)).toNat = n % 64 + 0x80 := toNat_ofNat (by omega)
  generalize UInt8.ofNat (n / 4096 % 16 + 0xE0) = a at ha ⊢
  generalize UInt8.ofNat (n / 64 % 64 + 0x80) = b at hb ⊢
  generalize UInt8.ofNat (n % 64 + 0x80) = c at hc ⊢
  have h1 : ¬ a < 0x80 := by simp [UInt8.lt_iff_toNat_lt, ha]
  have h2 : ¬ a < 0xC2 := by simp [UInt8.lt_iff_toNat_lt, ha]
  have h3 : ¬ a < 0xE0 := by simp [UInt8.lt_iff_toNat_lt, ha]
  have h4 : a < 0xF0 := by simp [UInt8.lt_iff_toNat_lt, ha]; omega
  have hsecond : isSecond a b = true := by
    refine isSecond_of_isTail (isTail_iff.mpr ?_) ?_ ?_ ?_ ?_ <;> omega
  have htail : isTail c = true := isTail_iff.mpr (by omega)
  have hchar : char3 a b c = Char.ofNat n := by
    rw [char3, low, low, ha, hb, hc]
    congr 1
    omega
  rw [pieces.eq_def]
  simp only [if_neg h1, if_neg h2, if_neg h3, if_pos h4, hsecond, htail, if_true, hchar]

theorem pieces_four (hlo : 0x10000 ≤ n) (hhi : n < 0x110000) :
    pieces (UInt8.ofNat (n / 262144 % 8 + 0xF0) :: UInt8.ofNat (n / 4096 % 64 + 0x80) ::
      UInt8.ofNat (n / 64 % 64 + 0x80) :: UInt8.ofNat (n % 64 + 0x80) :: r) =
      some (Char.ofNat n) :: pieces r := by
  have ha : (UInt8.ofNat (n / 262144 % 8 + 0xF0)).toNat = n / 262144 % 8 + 0xF0 :=
    toNat_ofNat (by omega)
  have hb : (UInt8.ofNat (n / 4096 % 64 + 0x80)).toNat = n / 4096 % 64 + 0x80 :=
    toNat_ofNat (by omega)
  have hc : (UInt8.ofNat (n / 64 % 64 + 0x80)).toNat = n / 64 % 64 + 0x80 :=
    toNat_ofNat (by omega)
  have hd : (UInt8.ofNat (n % 64 + 0x80)).toNat = n % 64 + 0x80 := toNat_ofNat (by omega)
  generalize UInt8.ofNat (n / 262144 % 8 + 0xF0) = a at ha ⊢
  generalize UInt8.ofNat (n / 4096 % 64 + 0x80) = b at hb ⊢
  generalize UInt8.ofNat (n / 64 % 64 + 0x80) = c at hc ⊢
  generalize UInt8.ofNat (n % 64 + 0x80) = d at hd ⊢
  have h1 : ¬ a < 0x80 := by simp [UInt8.lt_iff_toNat_lt, ha]
  have h2 : ¬ a < 0xC2 := by simp [UInt8.lt_iff_toNat_lt, ha]
  have h3 : ¬ a < 0xE0 := by simp [UInt8.lt_iff_toNat_lt, ha]
  have h4 : ¬ a < 0xF0 := by simp [UInt8.lt_iff_toNat_lt, ha]
  have h5 : a < 0xF5 := by simp [UInt8.lt_iff_toNat_lt, ha]; omega
  have hsecond : isSecond a b = true := by
    refine isSecond_of_isTail (isTail_iff.mpr ?_) ?_ ?_ ?_ ?_ <;> omega
  have htail : isTail c = true := isTail_iff.mpr (by omega)
  have htail' : isTail d = true := isTail_iff.mpr (by omega)
  have hchar : char4 a b c d = Char.ofNat n := by
    rw [char4, low, low, low, ha, hb, hc, hd]
    congr 1
    omega
  rw [pieces.eq_def]
  simp only [if_neg h1, if_neg h2, if_neg h3, if_neg h4, if_pos h5, hsecond, htail, htail',
    if_true, hchar]

/-- A character is read from its own bytes, whatever comes behind them. -/
theorem pieces_utf8EncodeChar (c : Char) (r : Bytes) :
    pieces (String.utf8EncodeChar c ++ r) = some c :: pieces r := by
  have hvalid := toNat_valid c
  have hc : Char.ofNat c.toNat = c := Char.ofNat_toNat c
  have hval : c.val.toNat = c.toNat := rfl
  rw [String.utf8EncodeChar]
  simp only [hval]
  split
  · rw [List.singleton_append, pieces_one (by omega), hc]
  split
  · rw [List.cons_append, List.singleton_append, pieces_two (by omega) (by omega), hc]
  split
  · rw [List.cons_append, List.cons_append, List.singleton_append,
      pieces_three (by omega) (by omega) (by omega), hc]
  · rw [List.cons_append, List.cons_append, List.cons_append, List.singleton_append,
      pieces_four (by omega) (by omega), hc]

end Pieces

/-! ## Texts -/

@[simp] theorem encode_nil : encode [] = [] := rfl

@[simp] theorem encode_append (s t : List Char) : encode (s ++ t) = encode s ++ encode t :=
  List.flatMap_append

theorem encode_cons (c : Char) (s : List Char) :
    encode (c :: s) = String.utf8EncodeChar c ++ encode s :=
  List.flatMap_cons

theorem pieces_encode (s : List Char) : pieces (encode s) = s.map some := by
  induction s with
  | nil => rfl
  | cons c s ih => rw [encode_cons, pieces_utf8EncodeChar, ih, List.map_cons]

theorem decode?_encode (s : List Char) : decode? (encode s) = some s := by
  rw [decode?, pieces_encode]
  induction s with
  | nil => rfl
  | cons c s ih =>
    rw [List.map_cons, List.mapM_cons, ih]
    rfl

/-- A character below 128 is written as one byte. -/
theorem utf8EncodeChar_of_lt {c : Char} (h : c.toNat < 0x80) :
    String.utf8EncodeChar c = [c.toUInt8] := by
  rw [String.utf8EncodeChar]
  have hle : c.val.toNat ≤ 127 := Nat.le_of_lt_succ h
  simp only [if_pos hle]
  rfl

theorem toNat_toUInt8 {c : Char} (h : c.toNat < 0x80) : c.toUInt8.toNat = c.toNat := by
  have hmod : c.toUInt8.toNat = c.toNat % 256 := UInt32.toNat_toUInt8 c.val
  omega

theorem eq_of_toUInt8 {c d : Char} (hc : c.toNat < 0x80) (hd : d.toNat < 0x80)
    (h : c.toUInt8 = d.toUInt8) : c = d := by
  have hval : c.toNat = d.toNat := by rw [← toNat_toUInt8 hc, h, toNat_toUInt8 hd]
  rw [← Char.ofNat_toNat c, hval, Char.ofNat_toNat]

/-- The bytes of any other character are none that a character below 128 is written as. -/
theorem le_of_mem_utf8EncodeChar {c : Char} {b : UInt8} (hc : 0x80 ≤ c.toNat)
    (hb : b ∈ String.utf8EncodeChar c) : 0x80 ≤ b.toNat := by
  have hval : c.val.toNat = c.toNat := rfl
  have htoNat : ∀ {n}, 0x80 ≤ n → n < 256 → 0x80 ≤ (UInt8.ofNat n).toNat := by
    intro n hlo hhi
    rw [toNat_ofNat hhi]
    exact hlo
  have hvalid := toNat_valid c
  rw [String.utf8EncodeChar] at hb
  simp only [hval] at hb
  split at hb
  · omega
  split at hb
  · simp only [List.mem_cons, List.not_mem_nil, or_false] at hb
    rcases hb with rfl | rfl <;> exact htoNat (by omega) (by omega)
  split at hb
  · simp only [List.mem_cons, List.not_mem_nil, or_false] at hb
    rcases hb with rfl | rfl | rfl <;> exact htoNat (by omega) (by omega)
  · simp only [List.mem_cons, List.not_mem_nil, or_false] at hb
    rcases hb with rfl | rfl | rfl | rfl <;> exact htoNat (by omega) (by omega)

theorem encode_of_ascii {s : List Char} (h : ∀ c ∈ s, c.toNat < 0x80) :
    encode s = s.map Char.toUInt8 := by
  induction s with
  | nil => rfl
  | cons c s ih =>
    rw [encode_cons, utf8EncodeChar_of_lt (h c List.mem_cons_self),
      ih fun d hd => h d (List.mem_cons_of_mem c hd), List.map_cons, List.singleton_append]

end Utf8

/-- **A text is read from its bytes.** -/
theorem Text.ofBytes?_bytes (s : String) : ofBytes? (bytes s) = some s := by
  rw [ofBytes?, bytes, Utf8.decode?_encode]
  simp

end IdentityTokens
