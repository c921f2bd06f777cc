import IdentityTokens.Clock
import IdentityTokens.Keys.Source
import IdentityTokens.Minter
import IdentityTokens.Rejection
import IdentityTokens.Token

/-! Verifying tokens of one kind for one project: first what the token says, then
its times, and last its signature, for which keys may have to be got. An emulator
signs nothing, so there the signature is not looked at. -/
namespace IdentityTokens

structure Verifier where
  kind : Kind
  project : String
  emulator : Bool
  keys : KeySource
deriving DecidableEq, Repr

namespace Verifier

def codec {α : Type} (r : Except CodecError α) : Except Rejection α := r.mapError .codec

/-- The header, the typed claims and all claims of a token. -/
structure Parts where
  header : JwtHeader
  token : IdToken
  claims : List (String × Json)

/-- Takes a token apart. Its payload is read twice, once for the typed claims. -/
def parts (token : String) : Except Rejection Parts := do
  if token = "" then .error .emptyToken
  let segments ← codec (Segments.split token)
  let header ← codec segments.readHeader
  let typed ← codec (segments.readPayload IdToken.decode)
  let claims ← codec (segments.readPayload Json.readObject)
  .ok ⟨header, typed, claims⟩

/-- What the header of a token for a real project has to say. -/
def checkSigned (h : JwtHeader) (t : IdToken) : Except Rejection Unit :=
  if h.keyId?.isNone then
    .error (if t.audience = CustomToken.usualAudience then .customToken else .noKeyId)
  else if h.algorithm ≠ JwtHeader.rs256 then .error (.algorithm false h.algorithm)
  else .ok ()

def checkEmulated (h : JwtHeader) : Except Rejection Unit :=
  if h.algorithm ≠ JwtHeader.rs256 ∧ h.algorithm ≠ JwtHeader.unsigned then
    .error (.algorithm true h.algorithm)
  else .ok ()

def checkClaims (v : Verifier) (t : IdToken) : Except Rejection Unit :=
  let issuer := v.kind.issuer v.project
  if t.audience ≠ v.project then .error (.audience v.project t.audience)
  else if t.issuer ≠ issuer then .error (.issuer issuer t.issuer)
  else if t.subject = "" then .error .emptySubject
  else if maxUidLength < t.subject.length then .error .longSubject
  else .ok ()

/-- The token with the claims that have no typed place. -/
def Parts.settled (p : Parts) : IdToken :=
  { p.token with
    uid := p.token.subject
    claims := Json.swapEraseAll IdToken.standardClaims p.claims }

/-- The header and the token, if they say what they have to. -/
def checkContent (v : Verifier) (token : String) : Except Rejection (JwtHeader × IdToken) := do
  if v.project = "" then .error .noProject
  let p ← parts token
  if v.emulator then checkEmulated p.header else checkSigned p.header p.token
  v.checkClaims p.token
  .ok (p.header, p.settled)

/-- How far clocks may be apart, in seconds. -/
def skew : Int := 300

def checkTimes (now : Int64) (t : IdToken) : Except Rejection Unit :=
  if now < clamp (t.issuedAt.toInt - skew) then .error (.issuedInFuture t.issuedAt)
  else if clamp (t.expires.toInt + skew) < now then .error (.expired t.expires)
  else .ok ()

/-- Whether the key that is named verifies the token, or any key if none is. -/
def isSigned (s : KeySnapshot) (keyId : Option String) (token : String) : Bool :=
  match keyId with
  | some kid => (s.get? kid).any (·.verifies token)
  | none => s.keys.any (·.verifies token)

def keySnapshot (v : Verifier) : Call KeySnapshot :=
  (v.keys.keys v.kind).mapError (·.withCode .certificateFetchFailed)

def reject {α : Type} (v : Verifier) (r : Except Rejection α) : Except AuthError α :=
  r.mapError (·.error v.kind)

def checkSignature (v : Verifier) (h : JwtHeader) (token : String) : Call Unit := do
  let s ← v.keySnapshot
  if isSigned s h.keyId? token then return () else Call.fail (Rejection.signature.error v.kind)

def verify (v : Verifier) (token : String) : Call IdToken := do
  let (header, verified) ← v.reject (v.checkContent token)
  v.reject (checkTimes (← Call.now) verified)
  if !v.emulator then v.checkSignature header token
  return verified

end Verifier

end IdentityTokens
