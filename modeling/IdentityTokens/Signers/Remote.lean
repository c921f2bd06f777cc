import IdentityTokens.Call.Web
import IdentityTokens.Text.Blank

/-! Signing by a service that holds the keys of service accounts. Without an
account of its own a signer finds out, once, which one the machine it runs on
has, and it signs as that account from then on. -/
namespace IdentityTokens

structure RemoteSigner where
  bearer : Bearer
  iamHost : String
  metadataHost : String
  account : Option String
deriving DecidableEq, Repr

namespace RemoteSigner

/-- Where the account of the machine is asked for. -/
def accountUrl (s : RemoteSigner) : String :=
  s.metadataHost ++ "/computeMetadata/v1/instance/service-accounts/default/email"

def flavorHeader : String × String := ("metadata-flavor", "Google")

def accountNamed (r : Response) : Except AuthError String :=
  if !r.isSuccess then .error (.ofPlatformResponse r.status r.body)
  else
    let email := Text.trim r.text
    if email = "" then .error (.unknown "metadata server returned an empty email") else .ok email

def discover (s : RemoteSigner) : Call String := do
  let response ← Web.get s.accountUrl [flavorHeader]
  accountNamed response

/-- What was found out before, else what is found out now. -/
def remembered (s : RemoteSigner) : Call String := do
  match (← Call.memory).account with
  | some email => return email
  | none =>
    let email ← s.discover
    Call.remember (Memory.setAccount email)
    return email

def guidance (e : AuthError) : AuthError :=
  if e.category = .cancelled then e
  else
    .of e.category e.code <| "failed to determine service account: " ++ e.message ++
      "; initialize the SDK with service account credentials or specify a service account with " ++
      "iam.serviceAccounts.signBlob permission; refer to " ++
      "https://firebase.google.com/docs/auth/admin/create-custom-tokens for more details on " ++
      "creating custom tokens"

def discovered (s : RemoteSigner) : Call String := do
  match (← Call.memory).account with
  | some email => return email
  | none => (Call.behind .account s.remembered).mapError guidance

def email (s : RemoteSigner) : Call String :=
  match s.account with
  | some email => return email
  | none => s.discovered

def signUrl (s : RemoteSigner) (email : String) : String :=
  s.iamHost ++ "/v1/projects/-/serviceAccounts/" ++ email ++ ":signBlob"

def signBody (message : Bytes) : Json :=
  .object [("bytesToSign", .text (Base64.encodeText Base64.standard message))]

open Json

def answerForm : Form String where
  title := "struct SignBlobResponse"
  fields := [field "signature" .never Reader.text fun v _ => v]
  blank := ""

/-- A signer that may not sign as the account is told apart. -/
def rejected (r : Response) : AuthError :=
  let e := AuthError.ofPlatformResponse r.status r.body
  if e.category = .permissionDenied then e.withCode .insufficientPermission else e

def signatureOf (r : Response) : Except AuthError Bytes := do
  if !r.isSuccess then .error (rejected r)
  let signature ← (answerForm.decode r.body).mapError fun e =>
    .unknown ("failed to parse signBlob response: " ++ e.message)
  (Base64.decodeText Base64.standard signature).mapError fun f =>
    .unknown ("failed to decode signBlob signature: " ++ f.message)

def sign (s : RemoteSigner) (message : Bytes) : Call Bytes := do
  let email ← s.email
  let response ← Web.post s.bearer (s.signUrl email) (signBody message)
  signatureOf response

end RemoteSigner

end IdentityTokens
