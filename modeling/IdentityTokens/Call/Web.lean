import IdentityTokens.Call.Basic
import IdentityTokens.Json.Printer

/-! Exchanges on the web as calls. Only what is posted is ever authorized, and
the token for it is got before anything else is done. -/
namespace IdentityTokens

/-- Where the token comes from that authorizes what is posted. -/
inductive Bearer where
  | nobody
  | fixed (token : String)
  /-- A collaborator of the caller's own is asked each time. -/
  | custom
deriving DecidableEq, Repr

namespace Bearer

def token : Bearer → Call (Option String)
  | nobody => return none
  | fixed t => return some t
  | custom => some <$> Call.accessToken

def headers : Option String → List (String × String)
  | none => []
  | some token => [("authorization", "Bearer " ++ token)]

end Bearer

namespace Web

/-- Sends a request, unless it cannot be sent or the call is cancelled before. -/
def send : Except TransportFault Request → Call Response
  | .error f => do
    Call.mayGoOn
    Call.fail f.error
  | .ok r => do
    let outcome ← Call.exchange r
    Call.done ((r.received outcome).mapError TransportFault.error)

def get (url : String) (headers : List (String × String)) : Call Response :=
  send (Request.build .get url headers "")

def jsonHeader : String × String := ("content-type", "application/json")

def post (bearer : Bearer) (url : String) (body : Json) : Call Response := do
  let token ← bearer.token
  send (Request.build .post url (jsonHeader :: Bearer.headers token) body.compact)

end Web

end IdentityTokens
