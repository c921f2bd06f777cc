import IdentityTokens.Credentials
import IdentityTokens.Rsa.PrivateKey

/-! Service accounts whose private key is at hand. -/
namespace IdentityTokens

structure ServiceAccount where
  email : String
  key : Rsa.PrivateKey
deriving DecidableEq, Repr

namespace ServiceAccount

/-- Blanks around the key do not count. -/
def ofPem (email pem : String) : Except AuthError ServiceAccount :=
  let pem := Text.trim pem
  if pem = "" then .error (credentialError "private key is not available")
  else
    match Rsa.PrivateKey.ofPem (Text.bytes pem) with
    | .ok key => .ok ⟨email, key⟩
    | .error f => .error (credentialError ("failed to parse private key: " ++ f.message))

def ofCredentials (c : Credentials) : Except AuthError ServiceAccount :=
  if c.clientEmail = "" then .error (credentialError "service account email is not available")
  else ofPem c.clientEmail c.privateKey

def sign (a : ServiceAccount) (message : Bytes) : Except AuthError Bytes :=
  match a.key.sign? message with
  | some s => .ok s
  | none => .error (.unknown "failed to sign bytes: signature error: message too long")

end ServiceAccount

end IdentityTokens
