import IdentityTokens.Proofs.Base64.Canonical
import IdentityTokens.Proofs.Jwt
import IdentityTokens.Token

/-! # Compact tokens, there and back

A token that was assembled gives back all that it was assembled from: its header, whatever names
and keys that has, its payload, if the payload is within the limit of nesting and no number in it
is rounded, and its signature. The other way round, a text that can be split is the one text of
its segments, and a segment that can be read is the one segment of its bytes. -/
namespace IdentityTokens

open Json

/-! ## Records with members that may be left out -/

section Optional

variable {σ : Type} {form : Form σ} {room : Nat} {seen : List String} {v result : σ}
  {ms : List (String × Json)} {name : String} {presence : Presence} {o : Option String}
  {set : Option String → σ → σ}

/-- A text that is left out is as good as none. -/
theorem Json.Form.Takes.optional
    (hfield : form.field? name = some (Json.field name presence (Reader.optional Reader.text) set))
    (hnew : seen.contains name = false) (hnone : set none v = v)
    (hmore : ∀ seen', seen' = seen ∨ seen' = name :: seen →
      form.Takes room seen' (set o v) ms result) :
    form.Takes room seen v (optionalMember name o ++ ms) result := by
  cases o with
  | none =>
    have habsent := hmore seen (.inl rfl)
    rw [hnone] at habsent
    exact habsent
  | some s =>
    exact .field hfield hnew (reads_field (reads_optional_text s)) (hmore _ (.inr rfl))

theorem contains_cons_of_ne {other : String} (hne : name ≠ other)
    (h : seen.contains name = false) : (other :: seen).contains name = false := by
  rw [List.contains_cons, h, Bool.or_false]
  exact beq_eq_false_iff_ne.mpr hne

end Optional

namespace SignInInfo

variable {room : Nat} {seen : List String} {i : SignInInfo}

/-- Nothing has to be there. -/
theorem missing?_form (seen : List String) : form.missing? seen = none := by
  simp [Form.missing?, form, field, deepField]

theorem takes_factors (i : SignInInfo) (hfactor : seen.contains "sign_in_second_factor" = false)
    (hid : seen.contains "second_factor_identifier" = false) :
    form.Takes room seen { i with secondFactor := none, secondFactorId := none }
      (optionalMember "sign_in_second_factor" i.secondFactor ++
        (optionalMember "second_factor_identifier" i.secondFactorId ++ [])) i := by
  refine .optional rfl hfactor rfl fun seen' hseen' => ?_
  have hid' : seen'.contains "second_factor_identifier" = false := by
    rcases hseen' with rfl | rfl
    · exact hid
    · exact contains_cons_of_ne (by decide) hid
  exact .optional rfl hid' rfl fun seen'' _ => .done (missing?_form seen'') rfl

theorem takes_identities (hroom : (Json.object i.identities).Fits room)
    (hidentities : seen.contains "identities" = false)
    (hfactor : seen.contains "sign_in_second_factor" = false)
    (hid : seen.contains "second_factor_identifier" = false) :
    form.Takes room seen ⟨i.provider, i.tenant, [], none, none⟩
      (("identities", .object i.identities) ::
        (optionalMember "sign_in_second_factor" i.secondFactor ++
          (optionalMember "second_factor_identifier" i.secondFactorId ++ []))) i := by
  have hsettled : Json.object (settleMembers (settledMembers i.identities)) =
      .object i.identities := hroom.settled
  have hfactor' : ("identities" :: seen).contains "sign_in_second_factor" = false :=
    contains_cons_of_ne (by decide) hfactor
  have hid' : ("identities" :: seen).contains "second_factor_identifier" = false :=
    contains_cons_of_ne (by decide) hid
  refine .field rfl hidentities (reads_deepField (reads_map hroom)) ?_
  rw [Json.object.inj hsettled]
  exact takes_factors i hfactor' hid'

/-- **What is said of a sign-in is read as it was written.** -/
theorem reads_toJson (hroom : (Json.object i.identities).Fits room) :
    Reads (form.read (room + 1)) i.toJson i := by
  intro rest _
  have htakes : form.Takes room [] form.blank
      (("sign_in_provider", .text i.provider) :: (optionalMember "tenant" i.tenant ++
        ("identities", .object i.identities) ::
          (optionalMember "sign_in_second_factor" i.secondFactor ++
            (optionalMember "second_factor_identifier" i.secondFactorId ++ [])))) i := by
    refine .field rfl rfl (reads_field (reads_text i.provider)) ?_
    refine .optional rfl rfl rfl fun seen hseen => ?_
    rcases hseen with rfl | rfl
    · exact takes_identities hroom rfl rfl rfl
    · exact takes_identities hroom rfl rfl rfl
  have hread : form.read (room + 1) (written (.object _) ++ rest) = .ok (i, rest) :=
    htakes.read_written
  simpa only [toJson, List.append_assoc, List.cons_append, List.nil_append, List.append_nil]
    using hread

theorem fits_identities (h : i.toJson.Fits (room + 1)) :
    (Json.object i.identities).Fits room := by
  cases h with
  | object _ hmembers => exact hmembers ("identities", .object i.identities) (by simp)

end SignInInfo

namespace IdToken

/-- **The typed claims of an ID token are read as they were written.** -/
theorem decode_toJson {t : IdToken} (ht : t.toJson.Fits Reader.maxDepth) (hclaims : t.claims = []) :
    decode (Text.bytes t.toJson.compact) = .ok t := by
  have hsignIn : t.signIn.toJson.Fits (Reader.maxDepth - 1) := by
    cases ht with
    | object _ hmembers => exact hmembers ("firebase", t.signIn.toJson) (by simp)
  have hreads := SignInInfo.reads_toJson (SignInInfo.fits_identities hsignIn)
  obtain ⟨authTime, issuer, audience, expires, issuedAt, subject, uid, signIn, claims⟩ := t
  cases hclaims
  apply Form.Takes.decode_compact
  refine .field rfl rfl (reads_field (reads_time authTime)) ?_
  refine .field rfl rfl (reads_field (reads_text issuer)) ?_
  refine .field rfl rfl (reads_field (reads_text audience)) ?_
  refine .field rfl rfl (reads_field (reads_time expires)) ?_
  refine .field rfl rfl (reads_field (reads_time issuedAt)) ?_
  refine .field rfl rfl (reads_field (reads_text subject)) ?_
  refine .field rfl rfl (reads_field (reads_text uid)) ?_
  exact .field rfl rfl (reads_deepField hreads) (.done rfl rfl)

end IdToken

/-! ## Tokens -/

namespace Segments

/-- A text can be split if and only if it has two dots. -/
theorem exists_split_iff (token : String) :
    (∃ s, split token = .ok s) ↔ token.toList.count '.' = 2 := by
  rcases split_cases token with ⟨hdots, hs⟩ | ⟨hdots, hsplit⟩
  · exact iff_of_true hs hdots
  · refine iff_of_false ?_ hdots
    rintro ⟨s, hs⟩
    cases hsplit.symm.trans hs

end Segments

namespace Segment

/-- A segment that is read is the one that its bytes are written in. -/
theorem encodeText_of_decodeBytes {s : String} {bytes : Bytes} (h : decodeBytes s = .ok bytes) :
    Base64.encodeText Base64.url bytes = s :=
  Base64.encodeText_of_decodeText Base64.sound_url Base64.exact_url (ok_of_mapError h)

end Segment

namespace Jwt

/-- What the token of a header, a payload and a signature comes apart into. -/
structure Returns {α : Type} (read : Bytes → Except Json.Error α) (header : JwtHeader)
    (payload : Json) (value : α) (signature : Bytes) (token : String) : Prop where
  dots : token.toList.count '.' = 2
  parts : ∃ s, Segments.split token = .ok s ∧ s.readHeader = .ok header ∧
    s.readPayload read = .ok value ∧ s.readSignature = .ok signature ∧
    s.signingInput = signingInput header payload

/-- Nothing but the payload has to be readable. -/
theorem returns_assemble {α : Type} {read : Bytes → Except Json.Error α} {payload : Json}
    {value : α} (header : JwtHeader) (signature : Bytes)
    (hread : read (Text.bytes payload.compact) = .ok value) :
    Returns read header payload value signature
      (assemble (signingInput header payload) signature) := by
  have hsplit := split_assemble header payload signature
  have hheader : (segments header payload signature).readHeader = .ok header := by
    rw [Segments.readHeader, segments, Segment.decode_encode, JwtHeader.decode_toJson]
    rfl
  have hpayload : (segments header payload signature).readPayload read = .ok value := by
    rw [Segments.readPayload, segments, Segment.decode_encode, hread]
    rfl
  exact ⟨(Segments.exists_split_iff _).mp ⟨_, hsplit⟩, _, hsplit, hheader, hpayload,
    readSignature_segments header payload signature, signingInput_segments header payload signature⟩

/-- What the compact format keeps, in both directions. -/
structure RoundTrip : Prop where
  customToken : ∀ (header : JwtHeader) (t : CustomToken) (signature : Bytes),
    (Json.object t.claims).Fits (Reader.maxDepth - 1) →
      Returns CustomToken.decode header t.toJson t signature
        (assemble (signingInput header t.toJson) signature)
  idToken : ∀ (header : JwtHeader) (t : IdToken) (signature : Bytes),
    t.claims = [] → t.toJson.Fits Reader.maxDepth →
      Returns IdToken.decode header t.toJson t signature
        (assemble (signingInput header t.toJson) signature)
  joined : ∀ token s, Segments.split token = .ok s →
    s.header ++ "." ++ s.payload ++ "." ++ s.signature = token
  split : ∀ token : String, (∃ s, Segments.split token = .ok s) ↔ token.toList.count '.' = 2
  /-- A segment is the base 64 of its bytes, -/
  canonical : ∀ segment bytes, Segment.decodeBytes segment = .ok bytes →
    Base64.encodeText Base64.url bytes = segment
  /-- so that no other signature has them. -/
  unique : ∀ (s s' : Segments) (signature : Bytes), s.readSignature = .ok signature →
    s'.readSignature = .ok signature → s.signature = s'.signature

/-- **Compact tokens are there and back again.** -/
theorem roundTrip : RoundTrip where
  customToken header _ signature ht := returns_assemble header signature (CustomToken.decode_toJson ht)
  idToken header _ signature hclaims ht :=
    returns_assemble header signature (IdToken.decode_toJson ht hclaims)
  joined _ _ h := (Segments.of_split h).1.symm
  split := Segments.exists_split_iff
  canonical _ _ := Segment.encodeText_of_decodeBytes
  unique _ _ _ h h' :=
    (Segment.encodeText_of_decodeBytes h).symm.trans (Segment.encodeText_of_decodeBytes h')

end Jwt

end IdentityTokens
