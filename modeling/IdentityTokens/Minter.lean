import IdentityTokens.CustomToken
import IdentityTokens.Signers.Signer

/-! Minting custom tokens: the account that signs is found out first, then the
user ID and the developer claims are checked, and only then is anything signed. -/
namespace IdentityTokens

/-- The characters of a user ID are counted as code points. -/
def maxUidLength : Nat := 128

def isUid (s : String) : Bool := s ≠ "" && s.length ≤ maxUidLength

structure Minter where
  signer : Signer
  tenant : Option String
deriving DecidableEq, Repr

namespace Minter

def ofSigner (signer : Signer) : Minter := ⟨signer, none⟩

def withTenant (m : Minter) (id : String) : Except AuthError Minter :=
  if id = "" then .error (.invalidArgument .unknown "tenantID must be a non-empty string")
  else .ok { m with tenant := some id }

/-- The claims that developers may not set. -/
def reservedClaims : List String :=
  ["acr", "amr", "at_hash", "aud", "auth_time", "azp", "cnf", "c_hash", "exp", "firebase", "iat",
    "iss", "jti", "nbf", "nonce", "sub"]

def checkUid (uid : String) : Except AuthError Unit :=
  if isUid uid then .ok ()
  else
    .error (.invalidArgument .invalidUid
      "uid must be non-empty, and not longer than 128 characters")

/-- The reserved claims among some, in the order of the table. -/
def reservedAmong (claims : List (String × Json)) : List String :=
  reservedClaims.filter (Json.names claims).contains

def reservedError (noun verb : String) (names : List String) : AuthError :=
  .invalidArgument .reservedClaims <| "developer " ++ noun ++ " " ++
    Text.quoted (", ".intercalate names) ++ " " ++ verb ++ " reserved and cannot be specified"

def checkClaims (claims : List (String × Json)) : Except AuthError Unit :=
  match reservedAmong claims with
  | [] => .ok ()
  | [name] => .error (reservedError "claim" "is" [name])
  | names => .error (reservedError "claims" "are" names)

def mint (m : Minter) (uid : String) (claims : List (String × Json)) : Call String := do
  let email ← m.signer.email
  checkUid uid
  checkClaims claims
  let token := CustomToken.issue email (← Call.now) uid claims m.tenant
  let input := Jwt.signingInput (JwtHeader.ofAlgorithm m.signer.algorithm) token.toJson
  let signature ← m.signer.sign (Text.bytes input)
  return Jwt.assemble input signature

end Minter

end IdentityTokens
