import IdentityTokens.Base64
import IdentityTokens.Proofs.Text.Utf8

/-! # Base 64 and back

Bytes are written in groups of three, four symbols to a group, and a last group of one or two
bytes leaves low bits of its last symbol zero. Reading asks for exactly this, so it gives the
bytes back, in either variant. What is written holds symbols and pads only: it is one byte a
character, and no dot is in it. -/
namespace IdentityTokens.Base64

/-- What makes a variant readable: a symbol is one byte, it stands for its own sextet, and it
is neither the pad nor the dot. -/
structure Variant.Sound (v : Variant) : Prop where
  ascii : ∀ n < 64, (v.symbol n).toNat < 0x80
  sextet : ∀ n < 64, v.sextet? (v.symbol n).toUInt8 = some n
  unpadded : ∀ n < 64, (v.symbol n).toUInt8 ≠ pad
  dotless : ∀ n < 64, v.symbol n ≠ '.'

theorem sound_url : url.Sound := ⟨by decide, by decide, by decide, by decide⟩

theorem sound_standard : standard.Sound := ⟨by decide, by decide, by decide, by decide⟩

section Written

variable {v : Variant} {c : Char} {bytes : Bytes}

/-! ## What is written -/

theorem mem_padding {n : Nat} (h : c ∈ padding v n) : c = '=' := by
  rw [padding] at h
  split at h
  · exact List.eq_of_mem_replicate h
  · cases h

/-- Only symbols of the alphabet are written, and pads. -/
theorem mem_encode (h : c ∈ encode v bytes) : c = '=' ∨ ∃ n < 64, c = v.symbol n := by
  have hsymbol : ∀ {n}, n < 64 → v.symbol n = '=' ∨ ∃ k < 64, v.symbol n = v.symbol k :=
    fun hn => .inr ⟨_, hn, rfl⟩
  induction bytes using encode.induct with
  | case1 => cases h
  | case2 a =>
    have ha := a.toNat_lt
    simp only [encode, List.cons_append, List.nil_append, List.mem_cons] at h
    rcases h with rfl | rfl | h
    · exact hsymbol (by omega)
    · exact hsymbol (by omega)
    · exact .inl (mem_padding h)
  | case3 a b =>
    have ha := a.toNat_lt
    have hb := b.toNat_lt
    simp only [encode, List.cons_append, List.nil_append, List.mem_cons] at h
    rcases h with rfl | rfl | rfl | h
    · exact hsymbol (by omega)
    · exact hsymbol (by omega)
    · exact hsymbol (by omega)
    · exact .inl (mem_padding h)
  | case4 a b d rest ih =>
    have ha := a.toNat_lt
    have hb := b.toNat_lt
    have hd := d.toNat_lt
    simp only [encode, List.mem_cons] at h
    rcases h with rfl | rfl | rfl | rfl | h
    · exact hsymbol (by omega)
    · exact hsymbol (by omega)
    · exact hsymbol (by omega)
    · exact hsymbol (by omega)
    · exact ih h

theorem encode_ne_nil {b : UInt8} : encode v (b :: bytes) ≠ [] := by
  match bytes with
  | [] | [_] | _ :: _ :: _ => simp [encode]

variable (hv : v.Sound)
include hv

theorem ascii_of_mem_encode (h : c ∈ encode v bytes) : c.toNat < 0x80 := by
  rcases mem_encode h with rfl | ⟨n, hn, rfl⟩
  · decide
  · exact hv.ascii n hn

/-- No dot is written, so what is written can stand between dots. -/
theorem dot_not_mem_encode : '.' ∉ encode v bytes := by
  intro h
  rcases mem_encode h with hdot | ⟨n, hn, hdot⟩
  · exact absurd hdot (by decide)
  · exact hv.dotless n hn hdot.symm

/-- One byte a character. -/
theorem bytes_encodeText : Text.bytes (encodeText v bytes) = (encode v bytes).map Char.toUInt8 := by
  rw [encodeText, Text.bytes, String.toList_ofList]
  exact Utf8.encode_of_ascii fun _ => ascii_of_mem_encode hv

end Written

/-! ## The bytes of a group -/

section Bytes

variable {n : Nat} (b : UInt8)

theorem byte1_eq (hn : n < 16) : byte1 (b.toNat / 4) (b.toNat % 4 * 16 + n) = b := by
  have h : b.toNat / 4 * 4 + (b.toNat % 4 * 16 + n) / 16 = b.toNat := by omega
  rw [byte1, h, UInt8.ofNat_toNat]

theorem byte2_eq {m : Nat} (hn : n < 4) :
    byte2 (m * 16 + b.toNat / 16) (b.toNat % 16 * 4 + n) = b := by
  have hb := b.toNat_lt
  have h : (m * 16 + b.toNat / 16) % 16 * 16 + (b.toNat % 16 * 4 + n) / 4 = b.toNat := by omega
  rw [byte2, h, UInt8.ofNat_toNat]

theorem byte3_eq {m : Nat} : byte3 (m * 4 + b.toNat / 64) (b.toNat % 64) = b := by
  have hb := b.toNat_lt
  have h : (m * 4 + b.toNat / 64) % 4 * 64 + b.toNat % 64 = b.toNat := by omega
  rw [byte3, h, UInt8.ofNat_toNat]

end Bytes

/-! ## Reading -/

section Reading

variable {v : Variant} (hv : v.Sound)

/-- The bytes that write some sextets. -/
def marks (v : Variant) (sextets : List Nat) : Bytes := sextets.map fun n => (v.symbol n).toUInt8

/-- How many pads follow a last group that lacks `n` symbols. -/
def fill (v : Variant) (n : Nat) : Nat := if v.padded then n else 0

theorem map_padding (n : Nat) :
    (padding v n).map Char.toUInt8 = List.replicate (fill v n) pad := by
  unfold padding fill
  split
  · exact List.map_replicate
  · rfl

theorem fill_le (v : Variant) (n : Nat) : fill v n ≤ n := by
  unfold fill
  split <;> omega

/-- Four bytes or fewer are the last group. -/
theorem decodeFrom_of_length {offset : Nat} {s : Bytes} (h : s.length ≤ 4) :
    decodeFrom v offset s = decodeLast v offset s := by
  match s, h with
  | [], _ | [_], _ | [_, _], _ | [_, _, _], _ | [_, _, _, _], _ => rfl

include hv

theorem sextet_symbol {offset n : Nat} (hn : n < 64) :
    sextet v offset (v.symbol n).toUInt8 = .ok n := by
  rw [sextet, hv.sextet n hn]

theorem lastSextets_marks {offset index pads : Nat} {sextets : List Nat}
    (hs : ∀ n ∈ sextets, n < 64) (hpads : pads = 0 ∨ 2 ≤ index + sextets.length) :
    lastSextets v offset index (marks v sextets ++ List.replicate pads pad) =
      .ok (sextets, pads) := by
  induction sextets generalizing index with
  | nil =>
    cases pads with
    | zero => rfl
    | succ pads =>
      have hindex : ¬ index < 2 := by
        rw [List.length_nil] at hpads
        omega
      simp [marks, List.replicate_succ, lastSextets, hindex]
  | cons n sextets ih =>
    have hn := hs n List.mem_cons_self
    have hcount : pads = 0 ∨ 2 ≤ index + 1 + sextets.length := by
      rw [List.length_cons] at hpads
      omega
    have hmore := ih (fun k hk => hs k (List.mem_cons_of_mem n hk)) hcount
    rw [marks, List.map_cons, List.cons_append, lastSextets, if_neg (hv.unpadded n hn),
      sextet_symbol hv hn]
    change (lastSextets v offset (index + 1) (marks v sextets ++ _)).bind _ = _
    rw [hmore]
    rfl

/-- A whole group with more behind it. -/
theorem decodeFrom_group (offset : Nat) {more : Bytes} {a b c d : Nat} (ha : a < 64)
    (hb : b < 64) (hc : c < 64) (hd : d < 64) (hmore : more ≠ []) :
    decodeFrom v offset (marks v [a, b, c, d] ++ more) =
      (decodeFrom v (offset + 4) more).map (byte1 a b :: byte2 b c :: byte3 c d :: ·) := by
  obtain ⟨e, rest, rfl⟩ := List.exists_cons_of_ne_nil hmore
  simp only [marks, List.map_cons, List.map_nil, List.cons_append, List.nil_append, decodeFrom,
    sextet_symbol hv ha, sextet_symbol hv hb, sextet_symbol hv hc, sextet_symbol hv hd]
  cases decodeFrom v (offset + 4) (e :: rest) <;> rfl

/-- A last group that is filled up as the variant asks is told apart into its sextets. -/
theorem decodeLast_pair (offset : Nat) {a b : Nat} (ha : a < 64) (hb : b < 64) (hlow : b % 16 = 0) :
    decodeLast v offset (marks v [a, b] ++ List.replicate (fill v 2) pad) = .ok [byte1 a b] := by
  have hs : ∀ n ∈ [a, b], n < 64 := by simp [ha, hb]
  unfold decodeLast
  rw [lastSextets_marks hv hs (by simp)]
  by_cases hp : v.padded <;> simp [fill, marks, hp, hlow, bind, Except.bind]

theorem decodeLast_triple (offset : Nat) {a b c : Nat} (ha : a < 64) (hb : b < 64) (hc : c < 64)
    (hlow : c % 4 = 0) :
    decodeLast v offset (marks v [a, b, c] ++ List.replicate (fill v 1) pad) =
      .ok [byte1 a b, byte2 b c] := by
  have hs : ∀ n ∈ [a, b, c], n < 64 := by simp [ha, hb, hc]
  unfold decodeLast
  rw [lastSextets_marks hv hs (by simp)]
  by_cases hp : v.padded <;> simp [fill, marks, hp, hlow, bind, Except.bind]

theorem decodeLast_quad (offset : Nat) {a b c d : Nat} (ha : a < 64) (hb : b < 64) (hc : c < 64)
    (hd : d < 64) :
    decodeLast v offset (marks v [a, b, c, d]) = .ok [byte1 a b, byte2 b c, byte3 c d] := by
  have hs : ∀ n ∈ [a, b, c, d], n < 64 := by simp [ha, hb, hc, hd]
  have hlast : lastSextets v offset 0 (marks v [a, b, c, d] ++ List.replicate 0 pad) =
      .ok ([a, b, c, d], 0) := lastSextets_marks hv hs (.inl rfl)
  rw [List.replicate_zero, List.append_nil] at hlast
  unfold decodeLast
  rw [hlast]
  by_cases hp : v.padded <;> simp [marks, hp, bind, Except.bind]

/-- Groups are read as they are written, wherever they start. -/
theorem decodeFrom_encode (offset : Nat) (bytes : Bytes) :
    decodeFrom v offset ((encode v bytes).map Char.toUInt8) = .ok bytes := by
  induction bytes using encode.induct generalizing offset with
  | case1 => simp [encode, decodeFrom, decodeLast, lastSextets, bind, Except.bind]
  | case2 a =>
    have ha := a.toNat_lt
    have hfill := fill_le v 2
    have hlast := decodeLast_pair hv offset (a := a.toNat / 4)
      (b := a.toNat % 4 * 16) (by omega) (by omega) (by omega)
    rw [encode, List.map_append, map_padding,
      decodeFrom_of_length (by simp; omega)]
    have h1 : byte1 (a.toNat / 4) (a.toNat % 4 * 16) = a := byte1_eq a (n := 0) (by decide)
    rw [h1] at hlast
    exact hlast
  | case3 a b =>
    have ha := a.toNat_lt
    have hb := b.toNat_lt
    have hfill := fill_le v 1
    have hlast := decodeLast_triple hv offset (a := a.toNat / 4)
      (b := a.toNat % 4 * 16 + b.toNat / 16) (c := b.toNat % 16 * 4)
      (by omega) (by omega) (by omega) (by omega)
    rw [encode, List.map_append, map_padding,
      decodeFrom_of_length (by simp; omega)]
    have h2 : byte2 (a.toNat % 4 * 16 + b.toNat / 16) (b.toNat % 16 * 4) = b :=
      byte2_eq b (n := 0) (by decide)
    rw [byte1_eq a (by omega), h2] at hlast
    exact hlast
  | case4 a b c rest ih =>
    have ha := a.toNat_lt
    have hb := b.toNat_lt
    have hc := c.toNat_lt
    have h1 : a.toNat / 4 < 64 := by omega
    have h2 : a.toNat % 4 * 16 + b.toNat / 16 < 64 := by omega
    have h3 : b.toNat % 16 * 4 + c.toNat / 64 < 64 := by omega
    have h4 : c.toNat % 64 < 64 := by omega
    rw [encode]
    simp only [List.map_cons]
    cases rest with
    | nil =>
      have hlast := decodeLast_quad hv offset h1 h2 h3 h4
      rw [byte1_eq a (by omega), byte2_eq b (by omega), byte3_eq c] at hlast
      rw [encode, List.map_nil, decodeFrom_of_length (by simp)]
      exact hlast
    | cons d rest =>
      have hmore : (encode v (d :: rest)).map Char.toUInt8 ≠ [] := by
        rw [Ne, List.map_eq_nil_iff]
        exact encode_ne_nil
      have hgroup := decodeFrom_group hv offset h1 h2 h3 h4 hmore
      rw [byte1_eq a (by omega), byte2_eq b (by omega), byte3_eq c, ih] at hgroup
      exact hgroup

/-- Nothing that was written is named as a stray symbol. -/
theorem strayLast?_encode (bytes : Bytes) :
    strayLast? v ((encode v bytes).map Char.toUInt8) = none := by
  unfold strayLast?
  split
  · rename_i b hlast
    obtain ⟨c, hc, rfl⟩ := List.mem_map.mp (List.mem_of_getLast? hlast)
    rw [if_neg]
    rintro ⟨-, hpad, hstray⟩
    rcases mem_encode hc with rfl | ⟨n, hn, rfl⟩
    · exact hpad rfl
    · rw [hv.sextet n hn] at hstray
      cases hstray
  · rfl

/-- **Bytes come back from what is written for them.** -/
theorem decodeText_encodeText (bytes : Bytes) : decodeText v (encodeText v bytes) = .ok bytes := by
  rw [decodeText, bytes_encodeText hv, decode, strayLast?_encode hv]
  exact decodeFrom_encode hv 0 bytes

end Reading

end IdentityTokens.Base64
