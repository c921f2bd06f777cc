import IdentityTokens.Proofs.Octets
import IdentityTokens.Rsa.PrivateKey
import Mathlib.FieldTheory.Finite.Basic
import Mathlib.NumberTheory.LucasPrimality

/-! # Signatures that verify

A power by squaring is the power. Where the factors of a modulus are two primes and the exponents
undo one another modulo both, the public power takes the private one back, so a key verifies what
it signs. Nothing is signed only where the modulus is too short for the padded digest, and no
modulus that verifies anything is. -/
namespace IdentityTokens

theorem Sha256.length_digest (message : Bytes) : (digest message).length = 32 := by
  simp only [digest, List.flatMap_cons, List.flatMap_nil, List.length_append,
    Octets.length_ofNat, List.length_nil]

namespace Rsa

/-! ## Powers -/

section Powers

variable {modulus fuel base exponent : Nat}

theorem powModWithin_eq (h : exponent < 2 ^ fuel) :
    powModWithin modulus fuel base exponent = base ^ exponent % modulus := by
  induction fuel generalizing base exponent with
  | zero =>
    obtain rfl : exponent = 0 := by simpa using h
    rw [powModWithin, Nat.pow_zero]
  | succ fuel ih =>
    have hhalf : exponent / 2 < 2 ^ fuel := by
      rw [Nat.pow_succ] at h
      omega
    have hsquare : (base * base % modulus) ^ (exponent / 2) % modulus =
        base ^ (2 * (exponent / 2)) % modulus := by
      rw [← Nat.pow_mod, Nat.pow_mul, Nat.pow_two]
    rw [powModWithin, ih hhalf, hsquare]
    split
    · rename_i h0
      rw [h0, Nat.pow_zero]
    · split
      · rename_i hodd
        have hexponent : exponent = 2 * (exponent / 2) + 1 := by omega
        conv_rhs => rw [hexponent, Nat.pow_succ]
        exact Nat.mod_mul_mod _ _ _
      · rename_i heven
        have hexponent : exponent = 2 * (exponent / 2) := by omega
        rw [← hexponent]

theorem powMod_eq (modulus base exponent : Nat) :
    powMod modulus base exponent = base ^ exponent % modulus :=
  powModWithin_eq Nat.lt_log2_self

variable {p q k m : Nat}

/-- Modulo a prime, an exponent that is one modulo the order undoes nothing. -/
theorem pow_modEq_self (hp : p.Prime) (hk : k % (p - 1) = 1) : m ^ k ≡ m [MOD p] := by
  have hsplit : k = (p - 1) * (k / (p - 1)) + 1 := by
    have hdiv := Nat.div_add_mod k (p - 1)
    omega
  by_cases hdvd : p ∣ m
  · have hk0 : k ≠ 0 := by omega
    exact ((Nat.modEq_zero_iff_dvd.mpr (dvd_pow hdvd hk0))).trans
      (Nat.modEq_zero_iff_dvd.mpr hdvd).symm
  · have hcoprime : Nat.Coprime m p := (hp.coprime_iff_not_dvd.mpr hdvd).symm
    have hfermat : m ^ (p - 1) ≡ 1 [MOD p] := by
      have htotient := Nat.ModEq.pow_totient hcoprime
      rwa [Nat.totient_prime hp] at htotient
    calc m ^ k = (m ^ (p - 1)) ^ (k / (p - 1)) * m := by
          conv_lhs => rw [hsplit, Nat.pow_succ, Nat.pow_mul]
      _ ≡ 1 ^ (k / (p - 1)) * m [MOD p] := (hfermat.pow _).mul_right m
      _ = m := by rw [Nat.one_pow, Nat.one_mul]

/-- Exponents that undo one another modulo both factors undo one another. -/
theorem powMod_powMod {d e : Nat} (hp : p.Prime) (hq : q.Prime) (hne : p ≠ q)
    (hdp : d * e % (p - 1) = 1) (hdq : d * e % (q - 1) = 1) (hm : m < p * q) :
    powMod (p * q) (powMod (p * q) m d) e = m := by
  have hcoprime : Nat.Coprime p q := (Nat.coprime_primes hp hq).mpr hne
  have hboth : m ^ (d * e) ≡ m [MOD p * q] :=
    (Nat.modEq_and_modEq_iff_modEq_mul hcoprime).mp ⟨pow_modEq_self hp hdp, pow_modEq_self hq hdq⟩
  rw [powMod_eq, powMod_eq, ← Nat.pow_mod, ← Nat.pow_mul]
  exact Eq.trans hboth (Nat.mod_eq_of_lt hm)

/-- A number is prime if powers modulo it find an element of the greatest order. -/
theorem prime_of_powMod {a : Nat} (hp : 2 ≤ p) (hfull : powMod p a (p - 1) = 1)
    (hpart : ∀ q, q.Prime → q ∣ p - 1 → powMod p a ((p - 1) / q) ≠ 1) : p.Prime := by
  have hone : ∀ n, (a : ZMod p) ^ n = 1 ↔ powMod p a n = 1 := by
    intro n
    rw [powMod_eq, ← Nat.cast_pow, ← Nat.cast_one, ZMod.natCast_eq_natCast_iff',
      Nat.mod_eq_of_lt (show 1 < p by omega)]
  refine lucas_primality p (a : ZMod p) ((hone _).mpr hfull) fun q hq hdvd h => ?_
  exact hpart q hq hdvd ((hone _).mp h)

end Powers

/-! ## Padded digests -/

section Padded

variable {size : Nat} {message m : Bytes}

/-- A padded digest fills its bytes, and the first one is idle. -/
theorem of_padded? (h : padded? size message = some m) :
    m.length = size ∧ Octets.toNat m < 256 ^ (size - 1) := by
  unfold padded? at h
  generalize digestLabel ++ Sha256.digest message = digest at h
  dsimp only at h
  split at h
  · cases h
  · rename_i hfits
    cases h
    have hlength : (1 :: List.replicate (size - digest.length - 3) (0xff : UInt8) ++
        0 :: digest).length = size - 1 := by
      simp only [List.length_append, List.length_cons, List.length_replicate]
      omega
    have hidle : (0 : UInt8).toNat = 0 := rfl
    have hlt := Octets.toNat_lt
      (1 :: List.replicate (size - digest.length - 3) (0xff : UInt8) ++ 0 :: digest)
    rw [hlength] at hlt
    rw [List.cons_append, List.length_cons, hlength, Octets.toNat_cons, hidle, Nat.zero_mul,
      Nat.zero_add]
    exact ⟨by omega, hlt⟩

theorem exists_padded? (h : 62 ≤ size) (message : Bytes) : ∃ m, padded? size message = some m := by
  have hlabel : digestLabel.length = 19 := rfl
  rw [padded?, if_neg]
  · exact ⟨_, rfl⟩
  · rw [List.length_append, hlabel, Sha256.length_digest]
    omega

end Padded

/-! ## Keys -/

/-- The keys that verify anything. -/
structure PublicKey.InRange (k : PublicKey) : Prop where
  min : PublicKey.minBits ≤ Octets.bitSize k.modulus
  max : Octets.bitSize k.modulus ≤ PublicKey.maxBits

namespace PrivateKey

variable {k : PrivateKey} {message : Bytes}

/-- What is signed with a key verifies with its public half. -/
def Sound (k : PrivateKey) : Prop :=
  ∀ message signature, k.sign? message = some signature →
    k.publicKey.verifies message signature = true

/-- There is room for a padded digest in every modulus that verifies anything. -/
theorem exists_sign? (h : k.publicKey.InRange) (message : Bytes) :
    ∃ signature, k.sign? message = some signature := by
  have hsize : 62 ≤ k.publicKey.size := by
    have hmin : 2048 ≤ Octets.bitSize k.publicKey.modulus := h.min
    rw [PublicKey.size, Octets.size_eq]
    omega
  obtain ⟨m, hm⟩ := exists_padded? hsize message
  rw [sign?, hm]
  exact ⟨_, rfl⟩

/-- A key is sound if its public power takes its private power back. -/
theorem sound_of_inverse (h : k.publicKey.InRange)
    (hinverse : ∀ m < k.publicKey.modulus,
      powMod k.publicKey.modulus (powMod k.publicKey.modulus m k.exponent)
        k.publicKey.exponent = m) : k.Sound := by
  intro message signature hsign
  have hmin : 2048 ≤ Octets.bitSize k.publicKey.modulus := h.min
  have hpos : 0 < k.publicKey.modulus := by
    refine Nat.pos_of_ne_zero fun h0 => ?_
    rw [Octets.bitSize, if_pos h0] at hmin
    omega
  rw [sign?, Option.map_eq_some_iff] at hsign
  obtain ⟨m, hm, rfl⟩ := hsign
  obtain ⟨hlength, hlt⟩ := of_padded? hm
  have hm_lt : Octets.toNat m < k.publicKey.modulus :=
    Nat.lt_of_lt_of_le hlt (Octets.pow_le hpos.ne')
  have hpower : powMod k.publicKey.modulus (Octets.toNat m) k.exponent < k.publicKey.modulus := by
    rw [powMod_eq]
    exact Nat.mod_lt _ hpos
  have hfits := Nat.lt_trans hpower (Octets.lt_pow_size k.publicKey.modulus)
  have hread : Octets.toNat (Octets.ofNat k.publicKey.size
      (powMod k.publicKey.modulus (Octets.toNat m) k.exponent)) =
        powMod k.publicKey.modulus (Octets.toNat m) k.exponent :=
    Octets.toNat_ofNat_of_lt hfits
  have hback : Octets.ofNat k.publicKey.size (Octets.toNat m) = m := by
    rw [← hlength]
    exact Octets.ofNat_toNat m
  rw [PublicKey.verifies, hread, hinverse _ hm_lt, hback, hm, Octets.length_ofNat]
  simp [h.min, h.max, hpower]

end PrivateKey

namespace Components

variable {c : Components} {key : PrivateKey}

theorem of_key? (h : c.key? = some key) :
    c.areConsistent = true ∧ key = ⟨⟨c.modulus, c.publicExponent⟩, c.privateExponent⟩ := by
  rw [key?] at h
  split at h
  · rename_i hc
    cases h
    exact ⟨hc, rfl⟩
  · cases h

/-- **A key of two primes is sound**, if it is one that is accepted at all. -/
theorem sound_of_prime (hkey : c.key? = some key) (hrange : key.publicKey.InRange)
    (h1 : c.prime1.Prime) (h2 : c.prime2.Prime) (hne : c.prime1 ≠ c.prime2) : key.Sound := by
  obtain ⟨hc, rfl⟩ := of_key? hkey
  refine PrivateKey.sound_of_inverse hrange ?_
  simp only [areConsistent, invertsModulo, Bool.and_eq_true, beq_iff_eq, decide_eq_true_eq] at hc
  obtain ⟨⟨⟨-, hmodulus⟩, -, hd1⟩, -, hd2⟩ := hc
  intro m hm
  dsimp only at hm ⊢
  rw [← hmodulus] at hm ⊢
  exact powMod_powMod h1 h2 hne hd1 hd2 hm

end Components

end Rsa

end IdentityTokens
