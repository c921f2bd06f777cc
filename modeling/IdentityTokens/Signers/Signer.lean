import IdentityTokens.Jwt
import IdentityTokens.Signers.Remote
import IdentityTokens.Signers.ServiceAccount

/-! Who signs the tokens that are minted. -/
namespace IdentityTokens

inductive Signer where
  /-- Signs nothing: its tokens are for an emulator. -/
  | emulated
  | local (account : ServiceAccount)
  | remote (signer : RemoteSigner)
  /-- A collaborator of the caller's own. -/
  | custom (algorithm : String)
deriving DecidableEq, Repr

namespace Signer

def emulatedEmail : String := "firebase-auth-emulator@example.com"

def algorithm : Signer → String
  | emulated => JwtHeader.unsigned
  | .local _ => JwtHeader.rs256
  | remote _ => JwtHeader.rs256
  | custom algorithm => algorithm

def email : Signer → Call String
  | emulated => return emulatedEmail
  | .local a => return a.email
  | remote s => s.email
  | custom _ => Call.signerEmail

def sign (signer : Signer) (message : Bytes) : Call Bytes :=
  match signer with
  | emulated => return Text.bytes "signature"
  | .local a => a.sign message
  | remote s => s.sign message
  | custom _ => Call.signature message

end Signer

end IdentityTokens
