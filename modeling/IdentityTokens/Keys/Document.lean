import IdentityTokens.Keys.Basic

/-! Key documents: one JSON object from key IDs to certificates. A document with
one bad certificate gives no keys at all. -/
namespace IdentityTokens.KeyDocument

open Json

/-- The certificates by key ID; of a repeated ID the last one counts. -/
def certificates (body : Bytes) : Except Json.Error (List (String × String)) :=
  (Reader.document (Reader.map Reader.maxDepth fun _ => Reader.text) body).map settleMembers

def keysOf (certificates : List (String × String)) : Except AuthError (List TrustedKey) :=
  certificates.mapM fun c => TrustedKey.ofPem c.1 (Text.bytes c.2)

def read (body : Bytes) : Except AuthError (List TrustedKey) :=
  match certificates body with
  | .error e => .error (certificateError ("failed to parse public keys: " ++ e.message))
  | .ok cs => keysOf cs

/-- A fixed snapshot of certificates that are at hand. -/
def fixed (certificates : List (String × String)) : Except AuthError KeySnapshot :=
  (keysOf certificates).map KeySnapshot.permanent

end IdentityTokens.KeyDocument
