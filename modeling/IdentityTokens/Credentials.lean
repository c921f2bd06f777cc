import IdentityTokens.Error
import IdentityTokens.Files
import IdentityTokens.Text.Blank

/-! Key files of service accounts. -/
namespace IdentityTokens

structure Credentials where
  type : String
  projectId : String
  privateKeyId : String
  privateKey : String
  clientEmail : String
  clientId : String
deriving DecidableEq, Repr

def credentialError (message : String) : AuthError := .invalidArgument .invalidCredential message

namespace Credentials

open Json

def form : Form Credentials where
  title := "struct ServiceAccountCredentials"
  fields := [
    field "type" .always Reader.text fun v c => { c with type := v },
    field "project_id" .always Reader.text fun v c => { c with projectId := v },
    field "private_key_id" .always Reader.text fun v c => { c with privateKeyId := v },
    field "private_key" .always Reader.text fun v c => { c with privateKey := v },
    field "client_email" .always Reader.text fun v c => { c with clientEmail := v },
    field "client_id" .always Reader.text fun v c => { c with clientId := v }]
  blank := ⟨"", "", "", "", "", ""⟩

def ofJson (b : Bytes) : Except AuthError Credentials :=
  (form.decode b).mapError fun e =>
    credentialError ("failed to parse service account credentials: " ++ e.message)

def ofFile (files : Files) (name : String) : Except AuthError Credentials :=
  match files name with
  | .error f =>
    .error (credentialError ("failed to read credentials file " ++ name ++ ": " ++ f.message))
  | .ok b => ofJson b

/-- Whether there is a key to sign with: blanks are none. -/
def hasPrivateKey (c : Credentials) : Bool := Text.trim c.privateKey != ""

end Credentials

end IdentityTokens
