import IdentityTokens.Minter
import IdentityTokens.Proofs.Call.Runs
import IdentityTokens.Proofs.Jwt
import IdentityTokens.Proofs.Times

/-! # What a minted token says

Whatever the signer, the user and the developer claims are, a token that is minted comes apart
into three segments. They are read as the header and the payload that it was minted with, and
as the signature that its signer gave for all of it before its last dot. -/
namespace IdentityTokens

/-- The segment is the text of an object with just these members: there are no others in it,
and none is repeated. -/
structure Segment.Holds (s : String) (members : List (String × Json)) : Prop where
  text : decode Json.readRaw s = .ok (.object members)
  object : decode Json.readObject s = .ok members
  distinct : (Json.names members).Nodup

theorem Segment.holds_encode {members : List (String × Json)}
    (h : (Json.object members).Fits Json.Reader.maxDepth) :
    Segment.Holds (encode (.object members)) members where
  text := by
    rw [decode_encode, Json.readRaw_compact h]
    rfl
  object := by
    rw [decode_encode, Json.readObject_compact h]
    rfl
  distinct := by
    cases h with
    | object hnames _ => exact hnames

namespace Minter

variable {m : Minter} {uid email token : String} {claims : List (String × Json)} {now : Int64}
  {signature : Bytes}

/-- What the segments of a token say that a minter made for a user, in the name of an account
and at a time. -/
structure Contents (m : Minter) (email : String) (now : Int64) (uid : String)
    (claims : List (String × Json)) (s : Segments) : Prop where
  header : Segment.Holds s.header [("alg", .text m.signer.algorithm), ("typ", .text "JWT")]
  /-- No key is named. -/
  headerRead : s.readHeader = .ok ⟨m.signer.algorithm, "JWT", none⟩
  payload : ∃ expires : Int64, expires.toInt = now.toInt + 3600 ∧
    Segment.Holds s.payload
      ([("iss", .text email), ("sub", .text email), ("aud", .text CustomToken.usualAudience),
        ("iat", .ofInt64 now), ("exp", .ofInt64 expires), ("uid", .text uid)] ++
        (if claims.isEmpty then [] else [("claims", .object claims)]) ++
        (match m.tenant with | none => [] | some id => [("tenant_id", .text id)]))
  payloadRead : s.readPayload CustomToken.decode =
    .ok (CustomToken.issue email now uid claims m.tenant)

/-- An hour on, unless that is past the last time there is. -/
theorem expires_toInt (h : now.toInt + 3600 < 2 ^ 63) :
    (now + CustomToken.lifetime).toInt = now.toInt + 3600 := by
  have hlo : -2 ^ 63 ≤ now.toInt := now.le_toInt
  have hlifetime : CustomToken.lifetime.toInt = 3600 := rfl
  rw [Int64.toInt_add, hlifetime]
  exact Int.bmod_eq_of_le (by omega) (by omega)

theorem contents_segments (hclaims : (Json.object claims).Fits (Json.Reader.maxDepth - 1))
    (hnow : now.toInt + 3600 < 2 ^ 63) (signature : Bytes) :
    Contents m email now uid claims
      (Jwt.segments (JwtHeader.ofAlgorithm m.signer.algorithm)
        (CustomToken.issue email now uid claims m.tenant).toJson signature) where
  header := Segment.holds_encode (JwtHeader.fits_toJson _)
  headerRead := by
    unfold Segments.readHeader Jwt.segments
    rw [Segment.decode_encode, JwtHeader.decode_toJson]
    rfl
  payload := by
    have hfits := CustomToken.fits_toJson
      (t := CustomToken.issue email now uid claims m.tenant) hclaims
    exact ⟨now + CustomToken.lifetime, expires_toInt hnow, Segment.holds_encode hfits⟩
  payloadRead := by
    unfold Segments.readPayload Jwt.segments
    rw [Segment.decode_encode, CustomToken.decode_toJson hclaims]
    rfl

/-- What a run that mints a token went through: the account was found out, and then the signer
was handed the input that the token is assembled from. -/
theorem run_mint_ok {outside : Outside} {w w' : World}
    (h : (m.mint uid claims).run outside w = (.ok token, w')) :
    ∃ email w₁ signature input,
      m.signer.email.run outside w = (.ok email, w₁) ∧
      input = Jwt.signingInput (JwtHeader.ofAlgorithm m.signer.algorithm)
        (CustomToken.issue email (w₁.clock outside) uid claims m.tenant).toJson ∧
      (m.signer.sign (Text.bytes input)).run outside (w₁.timed outside) = (.ok signature, w') ∧
      token = Jwt.assemble input signature := by
  unfold mint at h
  obtain ⟨email, w₁, hemail, hrest⟩ := Call.ok_of_run_bind h
  obtain ⟨_, w₂, huid, hrest⟩ := Call.ok_of_run_bind hrest
  obtain ⟨_, w₃, hchecked, hrest⟩ := Call.ok_of_run_bind hrest
  obtain ⟨now, w₄, hnow, hrest⟩ := Call.ok_of_run_bind hrest
  obtain ⟨signature, w₅, hsign, hlast⟩ := Call.ok_of_run_bind hrest
  clear hrest
  obtain rfl : w₁ = w₂ := (Prod.mk.inj huid).2
  obtain rfl : w₁ = w₃ := (Prod.mk.inj hchecked).2
  rw [Call.run_now] at hnow
  obtain ⟨hclock, htimed⟩ := Prod.mk.inj hnow
  obtain rfl := Except.ok.inj hclock
  obtain rfl := htimed
  obtain ⟨htoken, hworld⟩ := Prod.mk.inj hlast
  obtain rfl := hworld
  exact ⟨email, w₁, signature, _, hemail, rfl, hsign, (Except.ok.inj htoken).symm⟩

/-- **A minted token says what it was minted for, and its signature is for just that.** The
signer was handed the token's text before its last dot. -/
theorem contents_of_mint {outside : Outside} {w w' : World}
    (hclaims : (Json.object claims).Fits (Json.Reader.maxDepth - 1))
    (hclock : ∀ email w₁, m.signer.email.run outside w = (.ok email, w₁) →
      (w₁.clock outside).toInt + 3600 < 2 ^ 63)
    (hmint : (m.mint uid claims).run outside w = (.ok token, w')) :
    ∃ email w₁ signature s,
      m.signer.email.run outside w = (.ok email, w₁) ∧
      Segments.split token = .ok s ∧
      Contents m email (w₁.clock outside) uid claims s ∧
      token = s.signingInput ++ "." ++ s.signature ∧ '.' ∉ s.signature.toList ∧
      (m.signer.sign (Text.bytes s.signingInput)).run outside (w₁.timed outside) =
        (.ok signature, w') ∧
      s.readSignature = .ok signature := by
  obtain ⟨email, w₁, signature, input, hemail, rfl, hsign, rfl⟩ := run_mint_ok hmint
  refine ⟨email, w₁, signature, _, hemail, Jwt.split_assemble _ _ signature,
    contents_segments hclaims (hclock email w₁ hemail) signature, ?_, ?_, ?_, ?_⟩
  · rfl
  · exact (Jwt.dotless_segments _ _ _).signature
  · rw [Jwt.signingInput_segments]
    exact hsign
  · exact Jwt.readSignature_segments _ _ signature

/-- A clock that stands still and a signer of the caller's own; nothing else answers. -/
def standing (now : Int64) (email : String) (signature : Bytes) : Outside
  | _, .goAhead => none
  | _, .time => now
  | _, .exchange _ => none
  | _, .file _ => none
  | _, .accessToken => .error .cancelled
  | _, .trustedKeys _ => .error .cancelled
  | _, .userState _ => .error .cancelled
  | _, .signerEmail => .ok email
  | _, .signature _ => .ok signature

def tenantMinter : Minter := ⟨.custom "ES256", some "tenant"⟩

theorem contents_of_mint_standing :
    ∃ token w',
      (tenantMinter.mint "user" [("admin", .bool true)]).run
          (standing 1000 "signer@example.com" [1, 2, 3]) (.start .empty false) = (.ok token, w') ∧
        ∃ s, Segments.split token = .ok s ∧
          Contents tenantMinter "signer@example.com" 1000 "user" [("admin", .bool true)] s ∧
          s.readSignature = .ok [1, 2, 3] := by
  have hclaims : (Json.object [("admin", .bool true)]).Fits (Json.Reader.maxDepth - 1) := by
    refine .object (by simp [Json.names]) ?_
    intro m hm
    rw [List.mem_singleton.mp hm]
    exact .bool true
  have hclock : ∀ email w₁,
      tenantMinter.signer.email.run (standing 1000 "signer@example.com" [1, 2, 3])
        (.start .empty false) = (.ok email, w₁) →
      (w₁.clock (standing 1000 "signer@example.com" [1, 2, 3])).toInt + 3600 < 2 ^ 63 := by
    intro _ _ _
    change (1000 : Int64).toInt + 3600 < 2 ^ 63
    decide
  obtain ⟨token, w', hmint⟩ : ∃ token w',
      (tenantMinter.mint "user" [("admin", .bool true)]).run
        (standing 1000 "signer@example.com" [1, 2, 3]) (.start .empty false) = (.ok token, w') :=
    ⟨_, _, rfl⟩
  obtain ⟨email, w₁, signature, s, hemail, hsplit, hcontents, -, -, hsign, hsignature⟩ :=
    contents_of_mint hclaims hclock hmint
  cases hemail
  cases hsign
  exact ⟨token, _, hmint, s, hsplit, hcontents, hsignature⟩

end Minter

end IdentityTokens
