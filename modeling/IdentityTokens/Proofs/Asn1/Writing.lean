import IdentityTokens.Asn1.Reader
import IdentityTokens.Proofs.Call.Runs
import IdentityTokens.Proofs.Octets

/-! # Distinguished encodings, written

A value is written as its tag, its length in as few bytes as it needs, and its bytes. Readers take
what was written and leave the cursor behind it. One kind of reader needs nothing but room for what
it takes, another takes all the room that there is; a sequence is a reader of the second kind inside
one of the first. -/
namespace IdentityTokens.Asn1

/-- The cursor `n` bytes on. -/
def Cursor.skip (c : Cursor) (n : Nat) : Cursor :=
  { c with rest := c.rest.drop n, offset := c.offset + n }

section Skip

variable (c : Cursor) (m n : Nat)

@[simp] theorem Cursor.skip_rest : (c.skip n).rest = c.rest.drop n := rfl

@[simp] theorem Cursor.skip_remaining : (c.skip n).remaining = c.remaining - n :=
  (Nat.sub_sub _ _ _).symm

theorem Cursor.skip_skip : (c.skip m).skip n = c.skip (m + n) := by
  simp only [skip, List.drop_drop, Nat.add_assoc]

end Skip

theorem finish_skip {c : Cursor} {n : Nat} (h : c.remaining = n) : finish (c.skip n) = .ok () := by
  rw [finish, Cursor.skip_remaining, h, Nat.sub_self]
  rfl

section Readers

variable {α β : Type} {item : Cursor → Except Fault (Got α)} {b b' : Bytes} {v : α} {w : β}

/-- The reader takes the bytes, wherever they stand and whatever is behind them. -/
def Takes (item : Cursor → Except Fault (Got α)) (b : Bytes) (v : α) : Prop :=
  ∀ (c : Cursor) (rest : Bytes), c.rest = b ++ rest → b.length ≤ c.remaining →
    item c = .ok (v, c.skip b.length)

/-- The reader takes the bytes where there is room for no more. -/
def Fills (item : Cursor → Except Fault (Got α)) (b : Bytes) (v : α) : Prop :=
  ∀ (c : Cursor) (rest : Bytes), c.rest = b ++ rest → c.remaining = b.length →
    item c = .ok (v, c.skip b.length)

theorem Takes.fills (h : Takes item b v) : Fills item b v :=
  fun c rest hrest hroom => h c rest hrest hroom.ge

theorem takes_ok (v : α) : Takes (fun c => .ok (v, c)) [] v := fun _ _ _ _ => rfl

section Bind

variable {f : Got α → Except Fault (Got β)} {c : Cursor} {rest : Bytes}

theorem Takes.bind_eq (h : Takes item b v) (hrest : c.rest = b ++ (b' ++ rest))
    (hroom : b.length ≤ c.remaining)
    (hf : f (v, c.skip b.length) = .ok (w, (c.skip b.length).skip b'.length)) :
    (item c >>= f) = .ok (w, c.skip (b ++ b').length) := by
  rw [h c _ hrest hroom, List.length_append, ← Cursor.skip_skip, ← hf]
  rfl

theorem rest_skip (hrest : c.rest = b ++ rest) : (c.skip b.length).rest = rest := by
  rw [Cursor.skip_rest, hrest, List.drop_left]

theorem Takes.bind (h : Takes item b v) (hf : Takes (fun c => f (v, c)) b' w) :
    Takes (fun c => item c >>= f) (b ++ b') w := by
  intro c rest hrest hroom
  rw [List.append_assoc] at hrest
  rw [List.length_append] at hroom
  refine h.bind_eq hrest (by omega) (hf _ rest (rest_skip hrest) ?_)
  rw [Cursor.skip_remaining]
  omega

/-- What is made of a value takes nothing more. -/
theorem Takes.map (h : Takes item b v) (hf : ∀ c, f (v, c) = .ok (w, c)) :
    Takes (fun c => item c >>= f) b w := by
  have hnothing : Takes (fun c => f (v, c)) [] w := fun c _ _ _ => hf c
  have htakes := h.bind hnothing
  rwa [List.append_nil] at htakes

theorem Takes.bind_fills (h : Takes item b v) (hf : Fills (fun c => f (v, c)) b' w) :
    Fills (fun c => item c >>= f) (b ++ b') w := by
  intro c rest hrest hroom
  rw [List.append_assoc] at hrest
  rw [List.length_append] at hroom
  refine h.bind_eq hrest (by omega) (hf _ rest (rest_skip hrest) ?_)
  rw [Cursor.skip_remaining]
  omega

end Bind

theorem Takes.field (h : Takes item b v) : Takes (field item) b v := by
  intro c rest hrest hroom
  rw [Asn1.field, h c rest hrest hroom]
  rfl

/-- A document is all that there is. -/
theorem Fills.document (h : Fills item b v) : document item b = .ok v := by
  have hroom : (Cursor.ofBytes b).remaining = b.length := Nat.sub_zero _
  rw [Asn1.document, h _ [] (List.append_nil b).symm hroom]
  change (finish ((Cursor.ofBytes b).skip b.length) >>= fun _ => .ok v) = .ok v
  rw [finish_skip hroom]
  rfl

end Readers

/-! ## Headers -/

/-- The length of a value in as few bytes as it needs. -/
def writtenLength (n : Nat) : Bytes :=
  if n < 0x80 then [UInt8.ofNat n] else UInt8.ofNat (0x80 + Octets.size n) :: Octets.ofNat (Octets.size n) n

/-- A value with its header. -/
def written (t : Tag) (body : Bytes) : Bytes := t :: writtenLength body.length ++ body

/-- A tag that is known by name. -/
structure Tag.Named (t : Tag) : Prop where
  number : Tag.number t ≠ 31
  name : (universalNames.lookup t).isSome = true

section Headers

variable {t : Tag} {n : Nat} {body : Bytes}

theorem takes_take (b : Bytes) : Takes (take b.length) b b := by
  intro c rest hrest hroom
  rw [take, if_pos hroom, hrest, List.take_left]
  simp only [Cursor.skip, hrest]

theorem takes_byte (x : UInt8) : Takes byte [x] x := by
  intro c rest hrest hroom
  have htake : take 1 c = .ok ([x], c.skip 1) := takes_take [x] c rest hrest hroom
  rw [byte, htake]
  rfl

theorem takes_tag (ht : t.Named) : Takes tag [t] t := by
  have hcheck : ∀ c, checkTag c t = .ok t := by
    intro c
    rw [checkTag, if_neg ht.number, ht.name]
    rfl
  refine (takes_byte t).map fun c => ?_
  dsimp only
  rw [hcheck]
  rfl

theorem size_of_le (h : ¬ n < 0x80) (hmax : n ≤ maxLength) :
    1 ≤ Octets.size n ∧ Octets.size n ≤ 4 := by
  have hn : n ≠ 0 := by omega
  have hlog : n.log2 < 28 := (Nat.log2_lt hn).mpr (Nat.lt_of_le_of_lt hmax (by decide))
  rw [Octets.size, if_neg hn]
  omega

/-! A short length is its only byte; the first byte of a long one counts those behind it. -/

theorem toNat_short (h : n < 0x80) : (UInt8.ofNat n).toNat = n := by
  rw [UInt8.toNat_ofNat']
  omega

theorem short_lt (h : n < 0x80) : UInt8.ofNat n < 0x80 := by
  rw [UInt8.lt_iff_toNat_lt, toNat_short h]
  exact h

theorem toNat_long (h : n ≤ 4) : (UInt8.ofNat (0x80 + n)).toNat = 0x80 + n := by
  rw [UInt8.toNat_ofNat']
  omega

theorem not_long_lt (h : n ≤ 4) : ¬ UInt8.ofNat (0x80 + n) < 0x80 := by
  rw [UInt8.lt_iff_toNat_lt, toNat_long h]
  exact Nat.not_lt.mpr (Nat.le_add_right _ _)

theorem long_ne (h : n ≤ 4) (hpos : 1 ≤ n) : UInt8.ofNat (0x80 + n) ≠ 0x80 := by
  intro hsame
  have htoNat := congrArg UInt8.toNat hsame
  rw [toNat_long h] at htoNat
  change _ = 128 at htoNat
  omega

theorem not_lt_long (h : n ≤ 4) : ¬ 0x84 < UInt8.ofNat (0x80 + n) := by
  rw [UInt8.lt_iff_toNat_lt, toNat_long h]
  change ¬ 132 < _
  omega

theorem takes_length (t : Tag) (hmax : n ≤ maxLength) : Takes (length t) (writtenLength n) n := by
  unfold writtenLength
  by_cases hshort : n < 0x80
  · rw [if_pos hshort]
    refine (takes_byte _).map fun c => ?_
    dsimp only
    rw [if_pos (short_lt hshort), toNat_short hshort]
  · obtain ⟨hlo, hhi⟩ := size_of_le hshort hmax
    rw [if_neg hshort]
    refine (takes_byte _).bind (b := [_]) fun c rest hrest hroom => ?_
    have htake := takes_take _ c rest hrest hroom
    rw [Octets.length_ofNat] at hroom htake ⊢
    dsimp only
    rw [if_neg (not_long_lt hhi), if_neg (long_ne hhi hlo), if_neg (not_lt_long hhi),
      toNat_long hhi, Nat.add_sub_cancel_left, if_neg (Nat.not_lt.mpr hroom), htake]
    change (if maxLength < Octets.toNat _ then _ else _) = _
    rw [Octets.toNat_ofNat_size, if_neg (Nat.not_lt.mpr hmax), lengthBytes, if_neg hshort,
      if_pos rfl]

theorem takes_header (ht : t.Named) (hmax : n ≤ maxLength) :
    Takes header (t :: writtenLength n) (t, n) := by
  exact (takes_tag ht).bind ((takes_length t hmax).map fun c => rfl)

theorem takes_headerOf (ht : t.Named) (hmax : n ≤ maxLength) :
    Takes (headerOf t) (t :: writtenLength n) n := by
  exact (takes_header ht hmax).map fun c => if_pos rfl

end Headers

/-! ## Values -/

section Values

variable {t : Tag} {body : Bytes}

theorem takes_content (ht : t.Named) (hmax : body.length ≤ maxLength) :
    Takes (content t) (written t body) body :=
  (takes_headerOf ht hmax).bind (takes_take body)

theorem takes_any (ht : t.Named) (hmax : body.length ≤ maxLength) :
    Takes any (written t body) (t, body) := by
  exact (takes_header ht hmax).bind ((takes_take body).map fun c => rfl)

theorem named_integer : Tag.integer.Named := ⟨by decide, by decide⟩
theorem named_octetString : Tag.octetString.Named := ⟨by decide, by decide⟩
theorem named_null : Tag.null.Named := ⟨by decide, by decide⟩
theorem named_objectId : Tag.objectId.Named := ⟨by decide, by decide⟩
theorem named_sequence : Tag.sequence.Named := ⟨by decide, by decide⟩

/-- What fills a sequence is taken out of it. -/
theorem Fills.sequence {α : Type} {item : Cursor → Except Fault (Got α)} {v : α}
    (h : Fills item body v) (hmax : body.length ≤ maxLength) :
    Takes (Asn1.sequence item) (written Tag.sequence body) v := by
  refine (takes_headerOf named_sequence hmax).bind fun c rest hrest hroom => ?_
  have hinner : ({ c with start := c.offset, stop := c.offset + body.length } : Cursor).remaining =
      body.length := Nat.add_sub_cancel_left _ _
  have hread := h { c with start := c.offset, stop := c.offset + body.length } rest hrest hinner
  dsimp only
  rw [nested, if_pos hroom, hread]
  simp only [bind, Except.bind, finish_skip hinner]
  rfl

/-! ## Naturals -/

/-- A natural in as few bytes as leave the first bit clear. -/
def writtenNatural (n : Nat) : Bytes :=
  written Tag.integer (Octets.ofNat (Octets.bitSize n / 8 + 1) n)

theorem magnitude_of_low {c : Cursor} {x : UInt8} {r : Bytes} (h0 : x ≠ 0) (h : x < 0x80) :
    magnitude c (x :: r) = .ok (x :: r) := by
  have hsign : ¬ 0x80 ≤ x := fun hle => absurd (UInt8.lt_of_le_of_lt hle h) (by simp)
  unfold magnitude
  split
  · rename_i heq
    cases heq
  · rename_i heq
    exact absurd (List.cons.inj heq).1 h0
  · rename_i heq
    exact absurd (List.cons.inj heq).1 h0
  · rename_i heq
    cases heq
    rw [if_neg hsign]

theorem magnitude_of_high {c : Cursor} {x : UInt8} {r : Bytes} (h : 0x80 ≤ x) :
    magnitude c (0 :: x :: r) = .ok (x :: r) := by
  have hidle : ¬ x < 0x80 := fun hlt => absurd (UInt8.lt_of_le_of_lt h hlt) (by simp)
  rw [magnitude, if_neg hidle]

section Magnitude

variable (c : Cursor) {k n : Nat}

/-- The first byte is needed, and its first bit is clear. -/
theorem exists_magnitude_of_needed (h : n / 256 ^ k ≠ 0) (hlt : n < 128 * 256 ^ k) :
    ∃ m, magnitude c (Octets.ofNat (k + 1) n) = .ok m ∧ Octets.toNat m = n := by
  have hfirst : n / 256 ^ k < 128 := (Nat.div_lt_iff_lt_mul (Nat.pow_pos (by decide))).mpr hlt
  have htoNat : (UInt8.ofNat (n / 256 ^ k)).toNat = n / 256 ^ k := toNat_short hfirst
  have hread : Octets.toNat (Octets.ofNat (k + 1) n) = n := by
    refine Octets.toNat_ofNat_of_lt (Nat.lt_of_lt_of_le hlt ?_)
    rw [Nat.pow_succ, Nat.mul_comm]
    exact Nat.mul_le_mul_left _ (by decide)
  rw [Octets.ofNat_succ] at hread ⊢
  refine ⟨_, magnitude_of_low ?_ (short_lt hfirst), hread⟩
  intro hidle
  rw [hidle] at htoNat
  exact h htoNat.symm

/-- The first byte is idle, and it is there because the next one has its first bit set. -/
theorem exists_magnitude_of_idle (hlt : n < 256 ^ (k + 1)) (hge : 128 * 256 ^ k ≤ n) :
    ∃ m, magnitude c (Octets.ofNat (k + 2) n) = .ok m ∧ Octets.toNat m = n := by
  have hpos : 0 < 256 ^ k := Nat.pow_pos (by decide)
  have hnext : 128 ≤ n / 256 ^ k := (Nat.le_div_iff_mul_le hpos).mpr hge
  have hbyte : n / 256 ^ k < 256 := by
    rw [Nat.div_lt_iff_lt_mul hpos, Nat.mul_comm, ← Nat.pow_succ]
    exact hlt
  have hhigh : 0x80 ≤ UInt8.ofNat (n / 256 ^ k) := by
    rw [UInt8.le_iff_toNat_le, UInt8.toNat_ofNat', Nat.mod_eq_of_lt hbyte]
    exact hnext
  have hread : Octets.toNat (Octets.ofNat (k + 1) n) = n := Octets.toNat_ofNat_of_lt hlt
  rw [Octets.ofNat_succ, Nat.div_eq_of_lt hlt]
  rw [Octets.ofNat_succ] at hread ⊢
  exact ⟨_, magnitude_of_high hhigh, hread⟩

/-- The bytes of a natural are those of an integer that is not negative. -/
theorem exists_magnitude (n : Nat) :
    ∃ m, magnitude c (Octets.ofNat (Octets.bitSize n / 8 + 1) n) = .ok m ∧ Octets.toNat m = n := by
  have hlt := Octets.lt_half_pow n
  generalize hlength : Octets.bitSize n / 8 = length at hlt ⊢
  by_cases hfirst : n / 256 ^ length = 0
  · have hsmall : n < 256 ^ length :=
      (Nat.div_eq_zero_iff.mp hfirst).resolve_left (Nat.pow_pos (by decide)).ne'
    cases length with
    | zero =>
      obtain rfl : n = 0 := Nat.lt_one_iff.mp hsmall
      exact ⟨[0], rfl, rfl⟩
    | succ length => exact exists_magnitude_of_idle c hsmall (Octets.half_pow_le hlength)
  · exact exists_magnitude_of_needed c hfirst hlt

end Magnitude

theorem takes_natural {n : Nat} (hmax : Octets.bitSize n / 8 + 1 ≤ maxLength) :
    Takes natural (writtenNatural n) n := by
  have hlength : (Octets.ofNat (Octets.bitSize n / 8 + 1) n).length ≤ maxLength := by
    rw [Octets.length_ofNat]
    exact hmax
  refine (takes_headerOf named_integer hlength).bind fun c rest hrest hroom => ?_
  obtain ⟨m, hm, htoNat⟩ := exists_magnitude (c.skip
    (Octets.ofNat (Octets.bitSize n / 8 + 1) n).length) n
  dsimp only
  rw [takes_take _ c rest hrest hroom]
  simp only [bind, Except.bind, hm, htoNat]

end Values

end IdentityTokens.Asn1
