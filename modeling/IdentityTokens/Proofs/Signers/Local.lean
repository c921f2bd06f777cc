import IdentityTokens.Proofs.Jws
import IdentityTokens.Proofs.Minter.Contents
import IdentityTokens.Proofs.Rsa.Documents
import IdentityTokens.Proofs.Text.Blank

/-! # Tokens of an account whose key is at hand

An account signs what its minter asks for with the key that it was loaded with, so its tokens
verify under the certificate of that key: they are signed tokens in the eyes of who checks them,
whatever developers claim in them, and the signature is over just what it is checked against. In
which form the key was given, and what blanks stood around it, is nowhere to be seen. -/
namespace IdentityTokens

/-! ## Loading -/

namespace ServiceAccount

variable {email pem : String} {a : ServiceAccount}

/-- An account is loaded just if its key is; a text of blanks alone holds none. -/
theorem ofPem_eq_ok_iff :
    ofPem email pem = .ok a ↔
      Rsa.PrivateKey.ofPem (Text.bytes (Text.trim pem)) = .ok a.key ∧ a.email = email := by
  unfold ofPem
  dsimp only
  split
  · rename_i hnothing
    rw [hnothing]
    have hpreamble : Rsa.PrivateKey.ofPem (Text.bytes "") = .error (.pem .preamble) := rfl
    rw [hpreamble]
    exact iff_of_false nofun fun h => nomatch h.1
  · split
    · rename_i key hkey
      rw [hkey]
      constructor
      · rintro ⟨⟩
        exact ⟨rfl, rfl⟩
      · rintro ⟨hsame, rfl⟩
        rw [Except.ok.inj hsame]
    · rename_i f hfault
      rw [hfault]
      exact iff_of_false nofun fun h => nomatch h.1

theorem sign_eq_ok_iff {message signature : Bytes} :
    a.sign message = .ok signature ↔ a.key.sign? message = some signature := by
  unfold sign
  split <;> simp_all

end ServiceAccount

/-! ## Minting -/

namespace Minter

variable {a : ServiceAccount} {tenant : Option String} {uid token : String}
  {claims : List (String × Json)} {outside : Outside} {w w' : World}

/-- A user with claims that are free is given a token. -/
theorem exists_mint_local (hrange : a.key.publicKey.InRange) (huid : isUid uid = true)
    (hfree : reservedAmong claims = []) (tenant : Option String) (outside : Outside) (w : World) :
    ∃ token, ((Minter.mk (.local a) tenant).mint uid claims).run outside w =
      (.ok token, w.timed outside) := by
  have hemail : (Signer.email (.local a)).run outside w = (.ok a.email, w) := rfl
  have huid : checkUid uid = .ok () := if_pos huid
  have hclaims : checkClaims claims = .ok () := by
    rw [checkClaims, hfree]
  have hsign (message : Bytes) : ∃ signature,
      (Signer.sign (.local a) message).run outside (w.timed outside) =
        (.ok signature, w.timed outside) := by
    obtain ⟨signature, hsignature⟩ := Rsa.PrivateKey.exists_sign? hrange message
    have hsigned := ServiceAccount.sign_eq_ok_iff.mpr hsignature
    exact ⟨signature, congrArg (·, w.timed outside) hsigned⟩
  unfold mint
  rw [Call.run_bind_ok hemail, huid, Call.run_bind_ok rfl, hclaims, Call.run_bind_ok rfl,
    Call.run_bind_ok Call.run_now]
  obtain ⟨signature, hsignature⟩ := hsign _
  exact ⟨_, Call.run_bind_ok hsignature⟩

/-- **A token of an account verifies under the public half of its key.** -/
theorem verifies_of_mint_local (hsound : a.key.Sound)
    (hclaims : (Json.object claims).Nests (Json.Reader.maxDepth - 1))
    (h : ((Minter.mk (.local a) tenant).mint uid claims).run outside w = (.ok token, w')) :
    Jws.verifies a.key.publicKey token = true := by
  obtain ⟨email, w₁, signature, input, -, rfl, hsign, rfl⟩ := run_mint_ok h
  have hverifies := Jws.verifies_assemble a.key.publicKey signature
    (t := CustomToken.issue email (w₁.clock outside) uid claims tenant) hclaims
  have hsigned : a.sign _ = .ok signature := (Prod.mk.inj hsign).1
  exact hverifies.trans (hsound _ _ (ServiceAccount.sign_eq_ok_iff.mp hsigned))

end Minter

/-! ## Key pairs -/

/-- A key pair as it is loaded: an account out of the text of a private key, and a trusted key out
of the document of a certificate, which is that of the public half. -/
structure KeyPair (email pem kid : String) (certificate : Bytes) (a : ServiceAccount)
    (k : TrustedKey) : Prop where
  account : ServiceAccount.ofPem email pem = .ok a
  trusted : TrustedKey.ofPem kid certificate = .ok k
  matching : k.key = some a.key.publicKey
  range : a.key.publicKey.InRange

/-- A key that fits together is one half of a pair, in either form: it has a text of its own and one
of its public half. -/
theorem KeyPair.of_components {c : Rsa.Components} {key : Rsa.PrivateKey} {email kid text : String}
    (hkey : c.key? = some key) (hd : c.privateExponent ≤ c.modulus)
    (hrange : key.publicKey.InRange) (hkid : kid ≠ "")
    (htext : text = c.bareText ∨ text = c.wrappedText) :
    KeyPair email text kid (Text.bytes key.publicKey.text) ⟨email, key⟩
      ⟨kid, some key.publicKey⟩ := by
  obtain ⟨hc, rfl⟩ := Rsa.Components.of_key? hkey
  have hsmall := Rsa.Components.small_of_consistent hc hd
  have hholds : Rsa.PrivateKey.Holds (Text.bytes (Text.trim text)) c := by
    rcases htext with rfl | rfl
    · rw [Rsa.Components.bareText, Pem.trim_armored]
      exact .inl (Rsa.Components.isBare_bareText hsmall)
    · rw [Rsa.Components.wrappedText, Pem.trim_armored]
      exact .inr (Rsa.Components.isWrapped_wrappedText hsmall)
  have hloaded := (Rsa.PrivateKey.toOption_ofPem hholds).trans hkey
  exact {
    account := ServiceAccount.ofPem_eq_ok_iff.mpr ⟨toOption_eq_some.mp hloaded, rfl⟩
    trusted := Rsa.PublicKey.ofPem_text hkid (Rsa.PublicKey.usual_of_consistent hc)
    matching := rfl
    range := hrange }

/-- What the two halves of a pair are to one another. -/
structure KeyPair.Agree (email pem : String) (a : ServiceAccount) (k : TrustedKey) : Prop where
  /-- Whoever may be given a token is given one, in the name of any tenant and at any time, -/
  minted : ∀ tenant uid claims outside w, isUid uid = true → Minter.reservedAmong claims = [] →
    ∃ token, ((Minter.mk (.local a) tenant).mint uid claims).run outside w =
      (.ok token, w.timed outside)
  /-- and it verifies, whatever is claimed in it. -/
  verified : ∀ tenant uid claims outside w token w',
    (Json.object claims).Nests (Json.Reader.maxDepth - 1) →
    ((Minter.mk (.local a) tenant).mint uid claims).run outside w = (.ok token, w') →
      k.verifies token = true
  blanks : ∀ before after : String, (∀ c ∈ before.toList, Text.isBlank c = true) →
    (∀ c ∈ after.toList, Text.isBlank c = true) →
      ServiceAccount.ofPem email (before ++ pem ++ after) = .ok a
  /-- The key has parts, and from every text that holds them, bare or wrapped, comes the same
  account, so that it mints the same tokens. -/
  forms : ∃ parts, Rsa.PrivateKey.Holds (Text.bytes (Text.trim pem)) parts ∧
    ∀ pem', Rsa.PrivateKey.Holds (Text.bytes (Text.trim pem')) parts →
      ServiceAccount.ofPem email pem' = .ok a

/-- **Tokens that an account mints verify under its certificate**, if what its key signs verifies
with the public half of it. -/
theorem KeyPair.agree {email pem kid : String} {certificate : Bytes} {a : ServiceAccount}
    {k : TrustedKey} (h : KeyPair email pem kid certificate a k) (hsound : a.key.Sound) :
    Agree email pem a k where
  minted tenant _ _ outside w huid hfree :=
    Minter.exists_mint_local h.range huid hfree tenant outside w
  verified tenant uid claims outside w token w' hclaims hmint := by
    rw [TrustedKey.verifies, h.matching]
    exact Minter.verifies_of_mint_local hsound hclaims hmint
  blanks before after hbefore hafter := by
    rw [ServiceAccount.ofPem_eq_ok_iff, Text.trim_append hbefore hafter]
    exact ServiceAccount.ofPem_eq_ok_iff.mp h.account
  forms := by
    obtain ⟨hkey, hemail⟩ := ServiceAccount.ofPem_eq_ok_iff.mp h.account
    obtain ⟨parts, hparts, hloaded⟩ := Rsa.PrivateKey.exists_holds hkey
    refine ⟨parts, hparts, fun pem' hparts' => ?_⟩
    have hsame := (Rsa.PrivateKey.toOption_ofPem hparts').trans hloaded
    exact ServiceAccount.ofPem_eq_ok_iff.mpr ⟨toOption_eq_some.mp hsame, hemail⟩

/-! A pair of two primes of 1309 and 786 bits, each one above nine times a power of two. -/

namespace Rsa

def nineTimes (k : Nat) : Nat := 9 * Nat.pow 2 k

/-- Two and three are the only primes to try out. -/
theorem prime_nineTimes {k a : Nat} (hfull : powMod (nineTimes k + 1) a (nineTimes k) = 1)
    (h2 : powMod (nineTimes k + 1) a (nineTimes k / 2) ≠ 1)
    (h3 : powMod (nineTimes k + 1) a (nineTimes k / 3) ≠ 1) : (nineTimes k + 1).Prime := by
  have hpos : 0 < nineTimes k := Nat.mul_pos (by decide) (Nat.pow_pos (by decide))
  refine prime_of_powMod (a := a) (by omega) ?_ fun q hq hdvd => ?_
  · rw [Nat.add_sub_cancel]
    exact hfull
  · rw [Nat.add_sub_cancel] at hdvd ⊢
    rcases hq.dvd_mul.mp hdvd with h9 | hpow
    · have hthree : q ∣ 3 ^ 2 := h9
      obtain rfl := (Nat.prime_dvd_prime_iff_eq hq Nat.prime_three).mp (hq.dvd_of_dvd_pow hthree)
      exact h3
    · obtain rfl := (Nat.prime_dvd_prime_iff_eq hq Nat.prime_two).mp (hq.dvd_of_dvd_pow hpow)
      exact h2

theorem prime_nineTimes_1305 : (nineTimes 1305 + 1).Prime :=
  prime_nineTimes (a := 7) (by decide +kernel) (by decide +kernel) (by decide +kernel)

theorem prime_nineTimes_782 : (nineTimes 782 + 1).Prime :=
  prime_nineTimes (a := 10) (by decide +kernel) (by decide +kernel) (by decide +kernel)

def properParts : Components where
  modulus := (nineTimes 1305 + 1) * (nineTimes 782 + 1)
  publicExponent := 65537
  privateExponent := (1 + 50959 * nineTimes 1305) / 65537
  prime1 := nineTimes 1305 + 1
  prime2 := nineTimes 782 + 1
  hasMorePrimes := false

def properKey : PrivateKey :=
  ⟨⟨properParts.modulus, properParts.publicExponent⟩, properParts.privateExponent⟩

theorem key?_properParts : properParts.key? = some properKey :=
  if_pos (by decide +kernel)

theorem inRange_properKey : properKey.publicKey.InRange :=
  ⟨by decide +kernel, by decide +kernel⟩

theorem sound_properKey : properKey.Sound :=
  Components.sound_of_prime key?_properParts inRange_properKey prime_nineTimes_1305
    prime_nineTimes_782 (by decide +kernel)

end Rsa

def properAccount : ServiceAccount := ⟨"signer@example.com", Rsa.properKey⟩

def properTrusted : TrustedKey := ⟨"kid", some Rsa.properKey.publicKey⟩

theorem keyPair_proper :
    KeyPair "signer@example.com" Rsa.properParts.bareText "kid"
      (Text.bytes Rsa.properKey.publicKey.text) properAccount properTrusted :=
  .of_components Rsa.key?_properParts (by decide +kernel) Rsa.inRange_properKey (by decide) (.inl rfl)

theorem KeyPair.agree_proper :
    KeyPair "signer@example.com" Rsa.properParts.bareText "kid"
        (Text.bytes Rsa.properKey.publicKey.text) properAccount properTrusted ∧
      Rsa.properKey.Sound ∧
      Agree "signer@example.com" Rsa.properParts.bareText properAccount properTrusted ∧
      ∃ token, ((Minter.mk (.local properAccount) (some "tenant")).mint "user"
          [("admin", .bool true)]).run (Minter.standing 1000 "" []) (.start .empty false) =
            (.ok token, (World.start .empty false).timed (Minter.standing 1000 "" [])) ∧
        properTrusted.verifies token = true := by
  have hagree := keyPair_proper.agree Rsa.sound_properKey
  have hclaims : (Json.object [("admin", .bool true)]).Nests (Json.Reader.maxDepth - 1) := by
    refine .object fun m hm => ?_
    rw [List.mem_singleton.mp hm]
    exact .bool true
  obtain ⟨token, hmint⟩ := hagree.minted (some "tenant") "user" [("admin", .bool true)]
    (Minter.standing 1000 "" []) (.start .empty false) (by decide) (by decide)
  exact ⟨keyPair_proper, Rsa.sound_properKey, hagree, token, hmint,
    hagree.verified _ _ _ _ _ _ _ hclaims hmint⟩

end IdentityTokens
