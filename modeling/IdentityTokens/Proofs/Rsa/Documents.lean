import IdentityTokens.Keys.Basic
import IdentityTokens.Proofs.Asn1.Writing
import IdentityTokens.Proofs.Pem.Writing
import IdentityTokens.Proofs.Rsa.Forms
import IdentityTokens.Proofs.Rsa.Signatures

/-! # Documents of a key pair

A key is written bare or wrapped, and its public half in a document of its own. From each of the
three comes what it was written for, so there are documents in both forms, and a certificate to
match, for every key that fits together. -/
namespace IdentityTokens

open Asn1

namespace Asn1

section Sizes

variable {t : Tag} {body : Bytes} {n : Nat}

theorem length_writtenLength_le (hmax : n ≤ maxLength) : (writtenLength n).length ≤ 5 := by
  unfold writtenLength
  split
  · simp
  · rename_i hshort
    obtain ⟨-, hsize⟩ := size_of_le hshort hmax
    rw [List.length_cons, Octets.length_ofNat]
    omega

theorem length_written_le (t : Tag) (hmax : body.length ≤ maxLength) :
    (written t body).length ≤ body.length + 6 := by
  have hlength := length_writtenLength_le hmax
  rw [written, List.length_append, List.length_cons]
  omega

theorem written_ne_nil (t : Tag) (body : Bytes) : written t body ≠ [] := List.cons_ne_nil _ _

/-- A natural that is no longer than those in keys. -/
def Short (n : Nat) : Prop := Octets.bitSize n ≤ 8192

theorem Short.takes (h : Short n) : Takes natural (writtenNatural n) n :=
  takes_natural (by unfold Short at h; unfold maxLength; omega)

theorem Short.length_le (h : Short n) : (writtenNatural n).length ≤ 1031 := by
  have hlength : (Octets.ofNat (Octets.bitSize n / 8 + 1) n).length = Octets.bitSize n / 8 + 1 :=
    Octets.length_ofNat _ _
  have hmax : (Octets.ofNat (Octets.bitSize n / 8 + 1) n).length ≤ maxLength := by
    unfold Short at h
    unfold maxLength
    omega
  have hwritten := length_written_le Tag.integer hmax
  unfold Short at h
  rw [writtenNatural]
  omega

/-- A document that was written as one sequence. -/
theorem oneSequence_written (h : body.length + 6 ≤ maxLength) :
    oneSequence (written Tag.sequence body) = .ok () := by
  have hmax : body.length ≤ maxLength := by omega
  have hroom : (Cursor.ofBytes (written Tag.sequence body)).remaining =
      (written Tag.sequence body).length := Nat.sub_zero _
  have hlength : (written Tag.sequence body).length =
      (Tag.sequence :: writtenLength body.length).length + body.length := by
    rw [written, List.length_append]
  have hheader := takes_header named_sequence hmax (Cursor.ofBytes (written Tag.sequence body))
    body rfl (by omega)
  have hwhole := takes_take (written Tag.sequence body)
    (Cursor.ofBytes (written Tag.sequence body)) [] (List.append_nil _).symm hroom.ge
  have hshort := length_written_le Tag.sequence hmax
  have hoffset : ((Cursor.ofBytes (written Tag.sequence body)).skip
      (Tag.sequence :: writtenLength body.length).length).offset + body.length =
        (written Tag.sequence body).length := by
    rw [hlength]
    exact congrArg (· + _) (Nat.zero_add _)
  rw [oneSequence]
  simp only [bind, Except.bind, hheader, ne_eq, not_true_eq_false, if_false, hoffset]
  rw [if_neg (by omega), hwhole]
  exact finish_skip hroom

end Sizes

end Asn1

namespace Rsa

/-- The name of the algorithm, with no parameters. -/
def writtenAlgorithm : Bytes :=
  written Tag.sequence (written Tag.objectId algorithmId ++ (written Tag.null [] ++ []))

theorem takes_algorithm : Takes algorithm writtenAlgorithm true := by
  refine Fills.sequence ?_ (by decide)
  refine (takes_content named_objectId (by decide)).bind_fills ?_
  refine (takes_any named_null (by decide)).bind_fills ?_
  exact (takes_ok true).fills

namespace Components

variable {c : Components}

/-- The inverse of the second prime modulo the first one. -/
def coefficient (c : Components) : Nat := powMod c.prime1 c.prime2 (c.prime1 - 2)

/-- The parts of a key with two primes, as naturals. -/
def writtenParts (c : Components) : Bytes :=
  writtenNatural 0 ++ (writtenNatural c.modulus ++ (writtenNatural c.publicExponent ++
    (writtenNatural c.privateExponent ++ (writtenNatural c.prime1 ++ (writtenNatural c.prime2 ++
      (writtenNatural (c.privateExponent % (c.prime1 - 1)) ++
        (writtenNatural (c.privateExponent % (c.prime2 - 1)) ++
          (writtenNatural c.coefficient ++ []))))))))

def written (c : Components) : Bytes := Asn1.written Tag.sequence c.writtenParts

theorem takes_version : Takes version (writtenNatural 0) 0 := by
  have hsmall : Takes smallNatural (writtenNatural 0) 0 :=
    (takes_headerOf named_integer (by decide)).bind fun c rest hrest hroom => by
      have htake : take 1 c = .ok ([0], c.skip 1) := takes_take [0] c rest hrest hroom
      change (take 1 c >>= fun x => _) = _
      rw [htake]
      rfl
  exact hsmall.map fun c => rfl

theorem fills_otherPrimes : Fills otherPrimes [] false := by
  intro c rest _ hroom
  have hnone : peekTag c = .ok none := if_pos hroom
  rw [otherPrimes, hnone]
  rfl

/-- A key of two primes whose parts are no longer than those in keys. -/
structure Small (c : Components) : Prop where
  two : c.hasMorePrimes = false
  modulus : Short c.modulus
  publicExponent : Short c.publicExponent
  privateExponent : Short c.privateExponent
  prime1 : Short c.prime1
  prime2 : Short c.prime2
  exponent1 : Short (c.privateExponent % (c.prime1 - 1))
  exponent2 : Short (c.privateExponent % (c.prime2 - 1))
  coefficient : Short c.coefficient

/-- A key that is accepted is small, unless its private exponent is not reduced. -/
theorem small_of_consistent (h : c.areConsistent = true) (hd : c.privateExponent ≤ c.modulus) :
    c.Small := by
  simp only [areConsistent, invertsModulo, Bool.and_eq_true, beq_iff_eq, decide_eq_true_eq,
    Bool.not_eq_true'] at h
  obtain ⟨⟨⟨⟨⟨⟨⟨⟨⟨htwo, hbits⟩, hodd⟩, -⟩, -⟩, -⟩, he⟩, hproduct⟩, hp, -⟩, hq, -⟩ := h
  have hshort : ∀ n ≤ c.modulus, Short n := fun n hn =>
    Nat.le_trans (Octets.bitSize_le_of_le hn hbits) (by decide)
  have hp_le : c.prime1 ≤ c.modulus := by
    rw [← hproduct]
    exact Nat.le_mul_of_pos_right _ hq
  have hq_le : c.prime2 ≤ c.modulus := by
    rw [← hproduct]
    exact Nat.le_mul_of_pos_left _ hp
  have hcoefficient : c.coefficient < c.prime1 := by
    rw [coefficient, powMod_eq]
    exact Nat.mod_lt _ hp
  exact {
    two := htwo
    modulus := hshort _ (Nat.le_refl _)
    publicExponent := hshort _ he.le
    privateExponent := hshort _ hd
    prime1 := hshort _ hp_le
    prime2 := hshort _ hq_le
    exponent1 := hshort _ (Nat.le_trans (Nat.mod_le _ _) hd)
    exponent2 := hshort _ (Nat.le_trans (Nat.mod_le _ _) hd)
    coefficient := hshort _ (Nat.le_trans hcoefficient.le hp_le) }

theorem Small.length_parts_le (h : c.Small) : c.writtenParts.length ≤ 8251 := by
  have h0 : (writtenNatural 0).length = 3 := rfl
  have h1 := h.modulus.length_le
  have h2 := h.publicExponent.length_le
  have h3 := h.privateExponent.length_le
  have h4 := h.prime1.length_le
  have h5 := h.prime2.length_le
  have h6 := h.exponent1.length_le
  have h7 := h.exponent2.length_le
  have h8 := h.coefficient.length_le
  simp only [writtenParts, List.length_append, List.length_nil, h0]
  omega

theorem Small.length_le (h : c.Small) : c.written.length ≤ 8257 := by
  have hparts := h.length_parts_le
  have hwritten := length_written_le Tag.sequence (Nat.le_trans hparts (by decide))
  rw [written]
  omega

theorem takes_read (h : c.Small) : Takes read c.written c := by
  refine Fills.sequence ?_ ?_
  · refine takes_version.bind_fills ?_
    refine h.modulus.takes.field.bind_fills ?_
    refine h.publicExponent.takes.field.bind_fills ?_
    refine h.privateExponent.takes.field.bind_fills ?_
    refine h.prime1.takes.field.bind_fills ?_
    refine h.prime2.takes.field.bind_fills ?_
    refine h.exponent1.takes.field.bind_fills ?_
    refine h.exponent2.takes.field.bind_fills ?_
    refine h.coefficient.takes.field.bind_fills ?_
    intro c' rest hrest hroom
    have hmore : field otherPrimes c' = .ok (false, c') := by
      rw [field, fills_otherPrimes c' rest hrest hroom]
      rfl
    obtain ⟨modulus, publicExponent, privateExponent, prime1, prime2, hasMorePrimes⟩ := c
    obtain rfl : hasMorePrimes = false := h.two
    simp only [bind, Except.bind, hmore]
    rfl
  · exact Nat.le_trans h.length_parts_le (by decide)

/-- The same parts in a wrapping. -/
def wrappedParts (c : Components) : Bytes :=
  writtenNatural 0 ++ (writtenAlgorithm ++ (Asn1.written Tag.octetString c.written ++ []))

def writtenWrapped (c : Components) : Bytes := Asn1.written Tag.sequence c.wrappedParts

theorem Small.length_wrappedParts_le (h : c.Small) : c.wrappedParts.length ≤ 8281 := by
  have h0 : (writtenNatural 0).length = 3 := rfl
  have halgorithm : writtenAlgorithm.length = 15 := by decide
  have hparts := h.length_le
  have hwritten := length_written_le Tag.octetString (Nat.le_trans hparts (by decide))
  simp only [wrappedParts, List.length_append, List.length_nil, h0, halgorithm]
  omega

/-- Behind the key there is nothing, so no public key. -/
theorem takes_wrapped (h : c.Small) :
    Takes PrivateKey.wrapped c.writtenWrapped (true, c.written) := by
  refine Fills.sequence ?_ (Nat.le_trans h.length_wrappedParts_le (by decide))
  refine takes_version.bind_fills ?_
  refine takes_algorithm.bind_fills ?_
  refine (takes_content named_octetString (Nat.le_trans h.length_le (by decide))).bind_fills ?_
  intro c' rest _ hroom
  have hnone : PrivateKey.contextField 1 c'.remaining c' = .ok (none, c') := by
    rw [hroom]
    rfl
  have hmore : many PrivateKey.extraField c'.remaining c' = .ok ([], c') := by
    rw [hroom]
    rfl
  simp only [bind, Except.bind, hnone, hmore]
  rfl

end Components

/-! ## Texts of a private key -/

namespace Components

variable {c : Components}

def bareText (c : Components) : String := Pem.armored "RSA PRIVATE KEY" c.written

def wrappedText (c : Components) : String := Pem.armored "PRIVATE KEY" c.writtenWrapped

theorem sequenceDocument_armored {label : String} {body : Bytes}
    (hlabel : Pem.Document.IsLabel (Text.bytes label)) (h : body.length + 6 ≤ maxLength) :
    PrivateKey.sequenceDocument (Text.bytes (Pem.armored label (Asn1.written Tag.sequence body))) =
      .ok ⟨label, Asn1.written Tag.sequence body⟩ := by
  rw [PrivateKey.sequenceDocument, Pem.Document.ofBytes_armored hlabel (written_ne_nil _ _)]
  simp only [bind, Except.bind, Except.mapError, oneSequence_written h]

/-- **The bare text of a key holds its parts.** -/
theorem isBare_bareText (h : c.Small) : PrivateKey.IsBare (Text.bytes c.bareText) c := by
  have hlength := h.length_parts_le
  refine ⟨c.written, ?_, (takes_read h).fills.document⟩
  exact sequenceDocument_armored (fun _ => rfl) (by unfold maxLength; omega)

/-- **The wrapped text of a key holds its parts.** -/
theorem isWrapped_wrappedText (h : c.Small) : PrivateKey.IsWrapped (Text.bytes c.wrappedText) c := by
  have hlength := h.length_wrappedParts_le
  refine ⟨c.writtenWrapped, c.written, ?_, (takes_wrapped h).fills.document,
    (takes_read h).fills.document⟩
  exact sequenceDocument_armored (fun _ => rfl) (by unfold maxLength; omega)

end Components

end Rsa

/-! ## The text of a public key -/

namespace Asn1.Block

variable {t : Tag} {body rest : Bytes} {n fuel : Nat} {block : Block} {more : List Block}

theorem length_writtenLength (hmax : n ≤ maxLength) (rest : Bytes) :
    length (writtenLength n ++ rest) = some (n, rest) := by
  unfold writtenLength
  by_cases hshort : n < 0x80
  · rw [if_pos hshort, List.singleton_append, length, if_pos (short_lt hshort), toNat_short hshort]
  · obtain ⟨hlo, hhi⟩ := size_of_le hshort hmax
    have hroom : ¬ (8 < Octets.size n ∨
        (Octets.ofNat (Octets.size n) n ++ rest).length < Octets.size n) := by
      rw [List.length_append, Octets.length_ofNat]
      omega
    rw [if_neg hshort, List.cons_append, length, if_neg (not_long_lt hhi), toNat_long hhi,
      Nat.add_sub_cancel_left]
    dsimp only
    rw [if_neg hroom, List.take_left' (Octets.length_ofNat _ _),
      List.drop_left' (Octets.length_ofNat _ _), Octets.toNat_ofNat_size]

/-- A value of a universal type is a block, and what is behind it makes up the others. -/
theorem blocks_written (ht : t.toNat % 32 ≠ 31) (hlow : t < 0x40) (hmax : body.length ≤ maxLength)
    (hblock : universal (blocks fuel) (t.toNat % 32) body = some block)
    (hmore : rest = [] ∧ more = [] ∨ rest ≠ [] ∧ blocks fuel rest = some more) :
    blocks (fuel + 1) (written t body ++ rest) = some (block :: more) := by
  have hroom : ¬ (body ++ rest).length < body.length := by
    rw [List.length_append]
    omega
  have hlength : length (writtenLength body.length ++ (body ++ rest)) =
      some (body.length, body ++ rest) := length_writtenLength hmax _
  rw [written, List.cons_append, List.cons_append, List.append_assoc, blocks, if_neg ht]
  simp only [bind, Option.bind, hlength, hroom, if_false, List.take_left, List.drop_left, hlow,
    if_true, hblock]
  rcases hmore with ⟨rfl, rfl⟩ | ⟨hne, hrest⟩
  · rfl
  · rw [List.isEmpty_eq_false_iff.mpr hne, hrest]
    rfl

theorem universal_sequence (inside : Bytes → Option (List Block)) (body : Bytes) :
    universal inside (Tag.sequence.toNat % 32) body = (inside body).map sequence := rfl

theorem universal_objectId (inside : Bytes → Option (List Block)) (body : Bytes) :
    universal inside (Tag.objectId.toNat % 32) body = (objectId? body).map objectId := rfl

theorem universal_bits (inside : Bytes → Option (List Block)) (body : Bytes) :
    universal inside (Tag.bitString.toNat % 32) (0 :: body) = some (bits body) := rfl

theorem objectId?_algorithmId :
    objectId? Rsa.algorithmId = some [1, 2, 840, 113549, 1, 1, 1] := by decide

/-- The name of the algorithm, and parameters that are nothing. -/
theorem blocks_algorithm (fuel : Nat) :
    blocks (fuel + 2) (written Tag.objectId Rsa.algorithmId ++ (written Tag.null [] ++ [])) =
      some [objectId [1, 2, 840, 113549, 1, 1, 1], other] := by
  refine blocks_written (by decide) (by decide) (by decide) ?_ (.inr ⟨List.cons_ne_nil _ _, ?_⟩)
  · rw [universal_objectId, objectId?_algorithmId]
    rfl
  · exact blocks_written (by decide) (by decide) (by decide) rfl (.inl ⟨rfl, rfl⟩)

end Asn1.Block

namespace Rsa.PublicKey

variable {k : PublicKey}

/-- A public key as a sequence of naturals. -/
def written (k : PublicKey) : Bytes :=
  Asn1.written Tag.sequence (writtenNatural k.modulus ++ (writtenNatural k.exponent ++ []))

def writtenWrapped (k : PublicKey) : Bytes :=
  Asn1.written Tag.sequence (writtenAlgorithm ++ (Asn1.written Tag.bitString (0 :: k.written) ++ []))

def text (k : PublicKey) : String := Pem.armored "PUBLIC KEY" k.writtenWrapped

/-- A key that a document can hold. -/
structure Usual (k : PublicKey) : Prop where
  modulus : Short k.modulus
  exponent : Octets.bitSize k.exponent ≤ maxExponentBits
  modulusOdd : k.modulus % 2 = 1
  exponentOdd : k.exponent % 2 = 1
  exponentMin : 3 ≤ k.exponent

/-- The public half of a key that is accepted. -/
theorem usual_of_consistent {c : Components} (h : c.areConsistent = true) :
    (⟨c.modulus, c.publicExponent⟩ : PublicKey).Usual := by
  simp only [Components.areConsistent, Bool.and_eq_true, beq_iff_eq, decide_eq_true_eq] at h
  obtain ⟨⟨⟨⟨⟨⟨⟨⟨⟨-, hbits⟩, hodd⟩, heOdd⟩, hmin⟩, hmax⟩, -⟩, -⟩, -⟩, -⟩ := h
  exact {
    modulus := Nat.le_trans hbits (by decide)
    exponent := Octets.bitSize_le_iff.mpr (Nat.lt_of_le_of_lt hmax (by decide))
    modulusOdd := hodd
    exponentOdd := heOdd
    exponentMin := by
      dsimp only
      omega }

theorem Usual.short (h : k.Usual) : Short k.exponent :=
  Nat.le_trans h.exponent (by decide)

theorem Usual.length_le (h : k.Usual) : k.written.length ≤ 2068 := by
  have h1 := h.modulus.length_le
  have h2 := h.short.length_le
  have hparts : (writtenNatural k.modulus ++ (writtenNatural k.exponent ++ [])).length ≤ 2062 := by
    simp only [List.length_append, List.length_nil]
    omega
  have hwritten := length_written_le Tag.sequence (Nat.le_trans hparts (by decide))
  rw [written]
  omega

theorem bare?_written (h : k.Usual) : bare? k.written = some k := by
  have hparts : (writtenNatural k.modulus ++ (writtenNatural k.exponent ++ [])).length ≤
      maxLength := by
    have h1 := h.modulus.length_le
    have h2 := h.short.length_le
    simp only [List.length_append, List.length_nil, maxLength]
    omega
  rw [bare?, written, (Fills.sequence (v := k) ?_ hparts).fills.document]
  · exact if_pos ⟨h.modulusOdd, h.exponentOdd, h.exponentMin, h.exponent⟩
  · refine h.modulus.takes.bind_fills ?_
    refine h.short.takes.bind_fills ?_
    exact (takes_ok k).fills

theorem Usual.length_wrapped_le (h : k.Usual) :
    (writtenAlgorithm ++ (Asn1.written Tag.bitString (0 :: k.written) ++ [])).length ≤ 2090 := by
  have hlength := h.length_le
  have hbits : (0 :: k.written).length ≤ maxLength := by
    rw [List.length_cons]
    exact Nat.le_trans (Nat.succ_le_succ hlength) (by decide)
  have hwritten := length_written_le Tag.bitString hbits
  have halgorithm : writtenAlgorithm.length = 15 := by decide
  rw [List.length_cons] at hwritten
  simp only [List.length_append, List.length_nil, halgorithm]
  omega

/-- The algorithm is named, and the key is the one string of bits. -/
theorem blocks_parts (h : k.Usual) (fuel : Nat) :
    Block.blocks (fuel + 3)
      (writtenAlgorithm ++ (Asn1.written Tag.bitString (0 :: k.written) ++ [])) =
        some [.sequence [.objectId [1, 2, 840, 113549, 1, 1, 1], .other], .bits k.written] := by
  refine Block.blocks_written (by decide) (by decide) (by decide) ?_
    (.inr ⟨List.cons_ne_nil _ _, ?_⟩)
  · rw [Block.universal_sequence, Block.blocks_algorithm]
    rfl
  · have hbits : (0 :: k.written).length ≤ maxLength := by
      rw [List.length_cons]
      exact Nat.le_trans (Nat.succ_le_succ h.length_le) (by decide)
    exact Block.blocks_written (by decide) (by decide) hbits (Block.universal_bits _ _)
      (.inl ⟨rfl, rfl⟩)

theorem ofBytes?_writtenWrapped (h : k.Usual) :
    Block.ofBytes? k.writtenWrapped =
      some [.sequence [.sequence [.objectId [1, 2, 840, 113549, 1, 1, 1], .other],
        .bits k.written]] := by
  have hfuel : 4 ≤ k.writtenWrapped.length + 1 := by
    have halgorithm : writtenAlgorithm.length = 15 := by decide
    rw [writtenWrapped, Asn1.written, List.length_append, List.length_append, halgorithm]
    omega
  obtain ⟨fuel, hfuel⟩ := Nat.exists_eq_add_of_le' hfuel
  have hwhole : Block.blocks (fuel + 4) (k.writtenWrapped ++ []) =
      some [.sequence [.sequence [.objectId [1, 2, 840, 113549, 1, 1, 1], .other],
        .bits k.written]] := by
    refine Block.blocks_written (by decide) (by decide)
      (Nat.le_trans h.length_wrapped_le (by decide)) ?_ (.inl ⟨rfl, rfl⟩)
    rw [Block.universal_sequence, blocks_parts h]
    rfl
  rwa [List.append_nil, ← hfuel] at hwhole

/-- **The text of a public key holds it.** -/
theorem ofPem_text {kid : String} (hkid : kid ≠ "") (h : k.Usual) :
    TrustedKey.ofPem kid (Text.bytes k.text) = .ok ⟨kid, some k⟩ := by
  have harmor : Pem.Armor.ofBytes? (Text.bytes k.text) = some ⟨"PUBLIC KEY", k.writtenWrapped⟩ :=
    Pem.Armor.ofBytes?_armored (by decide) (by decide) (written_ne_nil _ _)
  have hbytes : keyBytes (Text.bytes k.text) = .ok k.written := by
    rw [keyBytes, harmor]
    dsimp only
    rw [ofBytes?_writtenWrapped h]
    rfl
  rw [TrustedKey.ofPem, if_neg hkid, hbytes]
  dsimp only
  rw [ofBytes?, bare?_written h]
  rfl

end Rsa.PublicKey

end IdentityTokens
