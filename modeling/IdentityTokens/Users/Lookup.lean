import IdentityTokens.Call.Web
import IdentityTokens.Text.Decimal

/-! Looking users up by a service: those of a project, or of a tenant in it. -/
namespace IdentityTokens

structure UserLookup where
  bearer : Bearer
  projectUrl : String
  tenant : Option String
deriving DecidableEq, Repr

namespace UserLookup

/-- Slashes at the end of a host do not count. -/
def ofHost (bearer : Bearer) (host project : String) : UserLookup :=
  let host := String.ofList (host.toList.reverse.dropWhile (· = '/')).reverse
  ⟨bearer, host ++ "/v1/projects/" ++ project, none⟩

def ofEmulator (bearer : Bearer) (host project : String) : UserLookup :=
  ofHost bearer ("http://" ++ host ++ "/identitytoolkit.googleapis.com") project

def forTenant (l : UserLookup) (id : String) : UserLookup := { l with tenant := some id }

def endpoint (l : UserLookup) : String :=
  match l.tenant with
  | none => l.projectUrl ++ "/accounts:lookup"
  | some id => l.projectUrl ++ "/tenants/" ++ id ++ "/accounts:lookup"

open Json

/-- A user as the service tells it; the time is decimal text. -/
structure User where
  disabled : Bool
  validSince : Option String
deriving DecidableEq, Repr

def userForm : Form User where
  title := "struct LookupUser"
  fields := [
    field "disabled" .always Reader.boolean fun v u => { u with disabled := v },
    field "validSince" .always (Reader.optional Reader.text) fun v u => { u with validSince := v }]
  blank := ⟨false, none⟩

def answerForm : Form (List User) where
  title := "struct LookupResponse"
  fields := [deepField "users" .always (Reader.list · userForm.read) fun v _ => v]
  blank := []

def unknownUser (uid : String) : AuthError :=
  .of .notFound .userNotFound ("no user exists with the uid: " ++ Text.quoted uid)

/-- In seconds; a user whose tokens were never revoked has none. -/
def User.validFrom (u : User) : Except AuthError Int64 :=
  match u.validSince.filter (· ≠ "") with
  | none => .ok 0
  | some s =>
    match Text.decimal? Int64.minValue.toInt Int64.maxValue.toInt s with
    | .ok n => .ok (Int64.ofInt n)
    | .error f =>
      .error (.unknown ("invalid validSince value " ++ Text.quoted s ++ ": " ++ f.message))

def User.state (u : User) : Except AuthError UserState :=
  u.validFrom.map fun t => ⟨u.disabled, UserState.millis t⟩

/-- What an answer says of a user: the first one in it counts. -/
def stateOf (uid : String) (r : Response) : Except AuthError UserState := do
  if !r.isSuccess then .error (.ofPlatformResponse r.status r.body)
  let users ← (answerForm.decode r.body).mapError fun e =>
    .unknown ("failed to parse user lookup response: " ++ e.message)
  match users with
  | [] => .error (unknownUser uid)
  | u :: _ => u.state

def body (uid : String) : Json := .object [("localId", .array [.text uid])]

def state (l : UserLookup) (uid : String) : Call UserState := do
  let response ← Web.post l.bearer l.endpoint (body uid)
  stateOf uid response

end UserLookup

end IdentityTokens
