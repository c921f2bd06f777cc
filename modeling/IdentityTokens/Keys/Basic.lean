import IdentityTokens.Error
import IdentityTokens.Jws
import IdentityTokens.Rsa.PublicKey

/-! The keys that are trusted to sign tokens. A snapshot holds one key for each
key ID and the time from which it is due for a refresh. -/
namespace IdentityTokens

def certificateError (message : String) : AuthError :=
  (AuthError.unknown message).withCode .certificateFetchFailed

/-- A key with its ID. Bytes that turn out to be no usable key verify nothing. -/
structure TrustedKey where
  kid : String
  key : Option Rsa.PublicKey
deriving DecidableEq, Repr

namespace TrustedKey

def fault (kid : String) : Rsa.CertificateFault → AuthError
  | .otherAlgorithm => certificateError "certificate is not a RSA key"
  | .invalidKeyFormat =>
    certificateError ("failed to parse certificate " ++ Text.quoted kid ++ ": InvalidKeyFormat")
  | .noKeyBytes =>
    certificateError ("failed to parse certificate " ++ Text.quoted kid ++ ": InvalidEcdsaKey")

def ofPem (kid : String) (pem : Bytes) : Except AuthError TrustedKey :=
  if kid = "" then .error (certificateError "public key has an empty key ID")
  else
    match Rsa.keyBytes pem with
    | .ok b => .ok ⟨kid, Rsa.PublicKey.ofBytes? b⟩
    | .error f => .error (fault kid f)

def verifies (k : TrustedKey) (token : String) : Bool := k.key.any (Jws.verifies · token)

end TrustedKey

structure KeySnapshot where
  keys : List TrustedKey
  expiresAt : Int64
deriving DecidableEq, Repr

namespace KeySnapshot

/-- Of several keys with one ID the last counts. -/
def ofKeys (keys : List TrustedKey) (expiresAt : Int64) : KeySnapshot :=
  ⟨(Json.settleMembers (keys.map fun k => (k.kid, k))).map (·.2), expiresAt⟩

/-- A snapshot that is never due. -/
def permanent (keys : List TrustedKey) : KeySnapshot := ofKeys keys Int64.maxValue

def get? (s : KeySnapshot) (kid : String) : Option TrustedKey := s.keys.find? (·.kid = kid)

def size (s : KeySnapshot) : Nat := s.keys.length

def isEmpty (s : KeySnapshot) : Bool := s.keys.isEmpty

def isExpired (s : KeySnapshot) (now : Int64) : Bool := s.expiresAt ≤ now

/-- The key IDs in ascending order. -/
def kids (s : KeySnapshot) : List String := (s.keys.map (·.kid)).mergeSort (· ≤ ·)

end KeySnapshot

end IdentityTokens
