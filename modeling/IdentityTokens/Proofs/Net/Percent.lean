import IdentityTokens.Net.Percent
import IdentityTokens.Proofs.Text.Utf8

/-! # Percent encoding and back

What is encoded is decoded to the bytes it was written in, as long as there was no `%` in it that
stayed as it is. So no two such texts are encoded alike. -/
namespace IdentityTokens.Percent

variable {stays : Char → Bool} {s t : List Char} {c : Char}

theorem encode_append (stays : Char → Bool) (s t : List Char) :
    encode stays (s ++ t) = encode stays s ++ encode stays t :=
  List.flatMap_append

theorem encode_cons_of_stays (hc : stays c = true) (s : List Char) :
    encode stays (c :: s) = c :: encode stays s := by
  rw [encode, List.flatMap_cons, if_pos hc]
  rfl

theorem mem_encode (h : c ∈ encode stays s) : c ∈ s ∨ c = '%' ∨ ∃ n < 16, c = upperDigit n := by
  obtain ⟨d, hd, hc⟩ := List.mem_flatMap.mp h
  split at hc
  · exact .inl (List.mem_singleton.mp hc ▸ hd)
  · obtain ⟨b, -, hb⟩ := List.mem_flatMap.mp hc
    have hlt : b.toNat < 256 := b.toNat_lt
    simp only [encodeByte, List.mem_cons, List.not_mem_nil, or_false] at hb
    rcases hb with rfl | rfl | rfl
    · exact .inr (.inl rfl)
    · exact .inr (.inr ⟨_, by omega, rfl⟩)
    · exact .inr (.inr ⟨_, by omega, rfl⟩)

/-! ## Decoding -/

theorem digit?_upperDigit : ∀ n < 16, digit? (upperDigit n) = some n := by decide

theorem decode_cons (hc : c ≠ '%') (s : List Char) :
    decode (c :: s) = String.utf8EncodeChar c ++ decode s := by
  match s with
  | [] => rw [decode, decode, List.append_nil]
  | [d] => rw [decode, decode]
  | d :: e :: rest => rw [decode, if_neg hc]

theorem decode_encodeByte (b : UInt8) (s : List Char) :
    decode (encodeByte b ++ s) = b :: decode s := by
  have hlt : b.toNat < 256 := b.toNat_lt
  have hvalue : UInt8.ofNat (b.toNat / 16 * 16 + b.toNat % 16) = b := by
    rw [show b.toNat / 16 * 16 + b.toNat % 16 = b.toNat by omega, UInt8.ofNat_toNat]
  rw [encodeByte, List.cons_append, List.cons_append, List.cons_append, List.nil_append, decode,
    if_pos rfl, digit?_upperDigit _ (by omega), digit?_upperDigit _ (by omega)]
  simp only [hvalue]

theorem decode_encodeBytes (bs : Bytes) (s : List Char) :
    decode (bs.flatMap encodeByte ++ s) = bs ++ decode s := by
  induction bs with
  | nil => rfl
  | cons b bs ih =>
    rw [List.flatMap_cons, List.append_assoc, decode_encodeByte, ih, List.cons_append]

theorem decode_encode (hs : '%' ∉ s) : decode (encode stays s) = Utf8.encode s := by
  induction s with
  | nil => rfl
  | cons c s ih =>
    rw [List.mem_cons, not_or] at hs
    rw [encode, List.flatMap_cons, ← encode, Utf8.encode_cons, ← ih hs.2]
    split
    · exact decode_cons (Ne.symm hs.1) _
    · exact decode_encodeBytes _ _

theorem encode_inj (hs : '%' ∉ s) (ht : '%' ∉ t) (h : encode stays s = encode stays t) : s = t := by
  have hbytes := congrArg decode h
  rw [decode_encode hs, decode_encode ht] at hbytes
  have hread := congrArg Utf8.decode? hbytes
  rw [Utf8.decode?_encode, Utf8.decode?_encode] at hread
  exact Option.some.inj hread

end IdentityTokens.Percent
