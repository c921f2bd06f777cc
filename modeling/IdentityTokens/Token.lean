import IdentityTokens.Json.Form

/-! What an ID token or a session cookie says once it is decoded. -/
namespace IdentityTokens

open Json

/-- The claims nested under `firebase`. -/
structure SignInInfo where
  provider : String
  tenant : Option String
  identities : List (String × Json)
  secondFactor : Option String
  secondFactorId : Option String

namespace SignInInfo

def blank : SignInInfo := ⟨"", none, [], none, none⟩

def form : Form SignInInfo where
  title := "struct FirebaseInfo"
  fields := [
    field "sign_in_provider" .always Reader.text fun v i => { i with provider := v },
    field "tenant" .always (Reader.optional Reader.text) fun v i => { i with tenant := v },
    deepField "identities" .always (Reader.map · Reader.value) fun v i =>
      { i with identities := settleMembers (settledMembers v) },
    field "sign_in_second_factor" .always (Reader.optional Reader.text) fun v i =>
      { i with secondFactor := v },
    field "second_factor_identifier" .always (Reader.optional Reader.text) fun v i =>
      { i with secondFactorId := v }]
  blank := blank

end SignInInfo

def optionalMember (name : String) : Option String → List (String × Json)
  | none => []
  | some s => [(name, .text s)]

def SignInInfo.toJson (i : SignInInfo) : Json :=
  .object <| [("sign_in_provider", .text i.provider)] ++ optionalMember "tenant" i.tenant ++
    [("identities", .object i.identities)] ++
    optionalMember "sign_in_second_factor" i.secondFactor ++
    optionalMember "second_factor_identifier" i.secondFactorId

/-- The typed claims of a token, with times in seconds since 1970. `claims` holds
what the typed ones leave over; decoding alone leaves it empty. -/
structure IdToken where
  authTime : Int64
  issuer : String
  audience : String
  expires : Int64
  issuedAt : Int64
  subject : String
  uid : String
  signIn : SignInInfo
  claims : List (String × Json)

namespace IdToken

def form : Form IdToken where
  title := "struct IdToken"
  fields := [
    field "auth_time" .always Reader.time fun v t => { t with authTime := v },
    field "iss" .always Reader.text fun v t => { t with issuer := v },
    field "aud" .always Reader.text fun v t => { t with audience := v },
    field "exp" .always Reader.time fun v t => { t with expires := v },
    field "iat" .always Reader.time fun v t => { t with issuedAt := v },
    field "sub" .always Reader.text fun v t => { t with subject := v },
    field "uid" .always Reader.text fun v t => { t with uid := v },
    deepField "firebase" .always SignInInfo.form.read fun v t => { t with signIn := v }]
  blank := ⟨0, "", "", 0, 0, "", "", SignInInfo.blank, []⟩

def decode (s : Bytes) : Except Json.Error IdToken := form.decode s

def toJson (t : IdToken) : Json :=
  .object [("auth_time", ofInt64 t.authTime), ("iss", .text t.issuer), ("aud", .text t.audience),
    ("exp", ofInt64 t.expires), ("iat", ofInt64 t.issuedAt), ("sub", .text t.subject),
    ("uid", .text t.uid), ("firebase", t.signIn.toJson)]

/-- The claims that have typed places and are left out of `claims`. -/
def standardClaims : List String := ["iss", "aud", "exp", "iat", "sub", "uid"]

def tenantId? (t : IdToken) : Option String := t.signIn.tenant

def claim? (t : IdToken) (name : String) : Option Json := lookup name t.claims

end IdToken

end IdentityTokens
