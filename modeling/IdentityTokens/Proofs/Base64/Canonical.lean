import IdentityTokens.Proofs.Base64
import IdentityTokens.Proofs.Call.Runs

/-! # Only what was written is read

Reading asks for whole groups, for the pads of the variant and for zeros in the low bits that no
byte needs. So a text that is read at all is the very text that its bytes are written in: no two
texts are read as the same bytes. -/
namespace IdentityTokens

namespace Text

theorem bytes_injective : Function.Injective bytes := by
  intro s t h
  have hs := ofBytes?_bytes s
  rw [h, ofBytes?_bytes t] at hs
  exact (Option.some.inj hs).symm

end Text

namespace Base64

/-- A byte that stands for a sextet is the symbol of that sextet. -/
def Variant.Exact (v : Variant) : Prop :=
  ∀ b n, v.sextet? b = some n → n < 64 ∧ (v.symbol n).toUInt8 = b

/-- Whether each byte is read as a sextet of which it is the symbol can be tried out. -/
theorem Variant.exact_of_bytes {v : Variant}
    (h : ∀ k < 256, ∀ n ∈ v.sextet? (UInt8.ofNat k), n < 64 ∧ (v.symbol n).toUInt8 = UInt8.ofNat k) :
    v.Exact := by
  intro b n hn
  have hb := h b.toNat b.toNat_lt n
  rw [UInt8.ofNat_toNat] at hb
  exact hb hn

theorem exact_url : url.Exact := Variant.exact_of_bytes (by decide +kernel)

theorem exact_standard : standard.Exact := Variant.exact_of_bytes (by decide +kernel)

/-! ## Bytes of sextets

The sextets of the bytes that sextets make up are those sextets, if the bits that no byte takes
are zero. -/

section Sextets

variable {a b c d : Nat}

theorem toNat_byte1 (ha : a < 64) (hb : b < 64) : (byte1 a b).toNat = a * 4 + b / 16 := by
  rw [byte1, UInt8.toNat_ofNat']
  omega

theorem toNat_byte2 (hc : c < 64) : (byte2 b c).toNat = b % 16 * 16 + c / 4 := by
  rw [byte2, UInt8.toNat_ofNat']
  omega

theorem toNat_byte3 (hd : d < 64) : (byte3 c d).toNat = c % 4 * 64 + d := by
  rw [byte3, UInt8.toNat_ofNat']
  omega

end Sextets

section Canonical

variable {v : Variant} {offset index pads : Nat} {sextets : List Nat} {group s bytes : Bytes}

/-! ## Writing the bytes of a group -/

section Writing

variable {a b c d : Nat} (ha : a < 64) (hb : b < 64)
include ha hb

theorem encode_pair (hlow : b % 16 = 0) :
    (encode v [byte1 a b]).map Char.toUInt8 = marks v [a, b] ++ List.replicate (fill v 2) pad := by
  have h1 : (byte1 a b).toNat / 4 = a := by
    rw [toNat_byte1 ha hb]
    omega
  have h2 : (byte1 a b).toNat % 4 * 16 = b := by
    rw [toNat_byte1 ha hb]
    omega
  rw [encode, h1, h2, List.map_append, map_padding]
  rfl

theorem encode_triple (hc : c < 64) (hlow : c % 4 = 0) :
    (encode v [byte1 a b, byte2 b c]).map Char.toUInt8 =
      marks v [a, b, c] ++ List.replicate (fill v 1) pad := by
  have h1 : (byte1 a b).toNat / 4 = a := by
    rw [toNat_byte1 ha hb]
    omega
  have h2 : (byte1 a b).toNat % 4 * 16 + (byte2 b c).toNat / 16 = b := by
    rw [toNat_byte1 ha hb, toNat_byte2 hc]
    omega
  have h3 : (byte2 b c).toNat % 16 * 4 = c := by
    rw [toNat_byte2 hc]
    omega
  rw [encode, h1, h2, h3, List.map_append, map_padding]
  rfl

theorem encode_quad (hc : c < 64) (hd : d < 64) :
    (encode v (byte1 a b :: byte2 b c :: byte3 c d :: bytes)).map Char.toUInt8 =
      marks v [a, b, c, d] ++ (encode v bytes).map Char.toUInt8 := by
  have h1 : (byte1 a b).toNat / 4 = a := by
    rw [toNat_byte1 ha hb]
    omega
  have h2 : (byte1 a b).toNat % 4 * 16 + (byte2 b c).toNat / 16 = b := by
    rw [toNat_byte1 ha hb, toNat_byte2 hc]
    omega
  have h3 : (byte2 b c).toNat % 16 * 4 + (byte3 c d).toNat / 64 = c := by
    rw [toNat_byte2 hc, toNat_byte3 hd]
    omega
  have h4 : (byte3 c d).toNat % 64 = d := by
    rw [toNat_byte3 hd]
    omega
  rw [encode, h1, h2, h3, h4]
  rfl

end Writing

/-! ## Reading -/

/-- Whether the pads of a last group are not those that the variant asks for. -/
def misfilled (v : Variant) (count pads : Nat) : Bool :=
  if v.padded then (pads + count) % 4 != 0 else pads != 0

theorem eq_fill {count n : Nat} (h : misfilled v count pads = false) (hcount : count + pads ≤ 4)
    (hn : n + count = 4) (hsome : 0 < count) : pads = fill v n := by
  unfold misfilled at h
  unfold fill
  split at h
  · rename_i hp
    have hmod : (pads + count) % 4 = 0 := by simpa using h
    rw [if_pos hp]
    omega
  · rename_i hp
    rw [if_neg hp]
    simpa using h

/-- The bytes of the last sextets. Of two and of three, the last one has bits that no byte takes. -/
inductive Makes : List Nat → Bytes → Prop where
  | pair {a b : Nat} (hlow : b % 16 = 0) : Makes [a, b] [byte1 a b]
  | triple {a b c : Nat} (hlow : c % 4 = 0) : Makes [a, b, c] [byte1 a b, byte2 b c]
  | quad {a b c d : Nat} : Makes [a, b, c, d] [byte1 a b, byte2 b c, byte3 c d]

/-- A last group is empty, or its sextets are read with the pads that the variant asks for. -/
theorem cases_decodeLast (h : decodeLast v offset group = .ok bytes) :
    group = [] ∧ bytes = [] ∨
      ∃ sextets pads, lastSextets v offset 0 group = .ok (sextets, pads) ∧
        misfilled v sextets.length pads = false ∧ (sextets.length ≤ 4 → Makes sextets bytes) := by
  obtain ⟨⟨sextets, pads⟩, hlast, hread⟩ := ok_of_bind h
  dsimp only at hread
  obtain ⟨henough, hfilled⟩ := ok_of_refusal hread
  rw [← misfilled] at hfilled
  obtain ⟨hpads, hbytes⟩ := ok_of_refusal hfilled
  clear h hread hfilled
  cases group with
  | nil =>
    cases hlast
    cases hbytes
    exact .inl ⟨rfl, rfl⟩
  | cons first rest =>
    refine .inr ⟨sextets, pads, hlast, Bool.eq_false_iff.mpr hpads, fun hcount => ?_⟩
    rcases sextets with _ | ⟨a, _ | ⟨b, _ | ⟨c, _ | ⟨d, _ | ⟨e, more⟩⟩⟩⟩⟩
    · exact absurd rfl henough
    · exact absurd rfl henough
    · obtain ⟨hlow, hpair⟩ := ok_of_guard hbytes
      cases hpair
      exact .pair hlow
    · obtain ⟨hlow, htriple⟩ := ok_of_guard hbytes
      cases htriple
      exact .triple hlow
    · cases hbytes
      exact .quad
    · simp only [List.length_cons] at hcount
      omega

/-- More than four bytes are a group of four and something behind it. -/
theorem exists_group {s : Bytes} (h : 4 < s.length) :
    ∃ a b c d e rest, s = a :: b :: c :: d :: e :: rest := by
  rcases s with _ | ⟨a, _ | ⟨b, _ | ⟨c, _ | ⟨d, _ | ⟨e, rest⟩⟩⟩⟩⟩
  case cons.cons.cons.cons.cons => exact ⟨a, b, c, d, e, rest, rfl⟩
  all_goals simp at h

section Reading

variable (hv : v.Exact)
include hv

theorem of_sextet {b : UInt8} {n : Nat} (h : sextet v offset b = .ok n) :
    n < 64 ∧ (v.symbol n).toUInt8 = b := by
  rw [sextet] at h
  split at h
  · rename_i k hk
    cases h
    exact hv b n hk
  · cases h

/-- The last group is its symbols with its pads behind them. -/
theorem of_lastSextets (h : lastSextets v offset index group = .ok (sextets, pads)) :
    (∀ n ∈ sextets, n < 64) ∧ group = marks v sextets ++ List.replicate pads pad := by
  induction group generalizing index sextets pads with
  | nil =>
    cases h
    exact ⟨by simp, rfl⟩
  | cons b rest ih =>
    rw [lastSextets] at h
    split at h
    · rename_i hb
      split at h
      · cases h
      · split at h
        · rename_i hrest
          cases h
          simp only [List.all_eq_true, beq_iff_eq] at hrest
          refine ⟨by simp, ?_⟩
          rw [List.replicate_succ, hb, ← List.eq_replicate_of_mem hrest]
          rfl
        · cases h
    · obtain ⟨n, hn, h⟩ := ok_of_bind h
      obtain ⟨⟨more, count⟩, hmore, h⟩ := ok_of_bind h
      cases h
      obtain ⟨hlt, hsymbol⟩ := of_sextet hv hn
      obtain ⟨hall, hrest⟩ := ih hmore
      refine ⟨by simpa using ⟨hlt, hall⟩, ?_⟩
      rw [hrest, ← hsymbol]
      rfl

/-- A last group that is read is the one that its bytes are written in. -/
theorem of_decodeLast (hlength : group.length ≤ 4) (h : decodeLast v offset group = .ok bytes) :
    group = (encode v bytes).map Char.toUInt8 := by
  obtain ⟨rfl, rfl⟩ | ⟨sextets, pads, hlast, hpads, hmakes⟩ := cases_decodeLast h
  · rfl
  obtain ⟨hlt, hgroup⟩ := of_lastSextets hv hlast
  have hcount : sextets.length + pads ≤ 4 := by
    rw [hgroup] at hlength
    simpa [marks] using hlength
  rw [hgroup]
  cases hmakes (by omega) with
  | @pair a b hlow =>
    rw [encode_pair (hlt a (by simp)) (hlt b (by simp)) hlow,
      eq_fill hpads hcount (n := 2) rfl (by simp)]
  | @triple a b c hlow =>
    rw [encode_triple (hlt a (by simp)) (hlt b (by simp)) (hlt c (by simp)) hlow,
      eq_fill hpads hcount (n := 1) rfl (by simp)]
  | @quad a b c d =>
    have hnone : pads = 0 := by
      simp only [List.length_cons, List.length_nil] at hcount
      omega
    rw [hnone, encode_quad (hlt a (by simp)) (hlt b (by simp)) (hlt c (by simp))
      (hlt d (by simp))]
    rfl

theorem of_decodeFrom (h : decodeFrom v offset s = .ok bytes) :
    s = (encode v bytes).map Char.toUInt8 := by
  induction offset, s using decodeFrom.induct generalizing bytes with
  | case1 offset a b c d e rest ih =>
    rw [decodeFrom] at h
    obtain ⟨na, hsa, h⟩ := ok_of_bind h
    obtain ⟨nb, hsb, h⟩ := ok_of_bind h
    obtain ⟨nc, hsc, h⟩ := ok_of_bind h
    obtain ⟨nd, hsd, h⟩ := ok_of_bind h
    obtain ⟨more, hmore, h⟩ := ok_of_bind h
    cases h
    obtain ⟨ha, rfl⟩ := of_sextet hv hsa
    obtain ⟨hb, rfl⟩ := of_sextet hv hsb
    obtain ⟨hc, rfl⟩ := of_sextet hv hsc
    obtain ⟨hd, rfl⟩ := of_sextet hv hsd
    rw [encode_quad ha hb hc hd, ← ih hmore]
    rfl
  | case2 offset group hshort =>
    have hlength : group.length ≤ 4 := by
      refine Nat.le_of_not_lt fun hlong => ?_
      obtain ⟨a, b, c, d, e, rest, rfl⟩ := exists_group hlong
      exact hshort a b c d e rest rfl
    rw [decodeFrom_of_length hlength] at h
    exact of_decodeLast hv hlength h

end Reading

/-- **A text that is read is the one that its bytes are written in.** -/
theorem encodeText_of_decodeText {text : String} (hv : v.Sound) (he : v.Exact)
    (h : decodeText v text = .ok bytes) : encodeText v bytes = text := by
  rw [decodeText, decode] at h
  split at h
  · cases h
  · apply Text.bytes_injective
    rw [bytes_encodeText hv, of_decodeFrom he h]

end Canonical

end Base64

end IdentityTokens
