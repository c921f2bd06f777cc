import IdentityTokens.Json.Form

/-! What a custom token says. A user signs in with one; it stands for the account
that signed it, and developer claims stand apart from all else in it. -/
namespace IdentityTokens

structure CustomToken where
  issuer : String
  subject : String
  audience : String
  issuedAt : Int64
  expires : Int64
  uid : String
  claims : List (String × Json)
  tenant : Option String

namespace CustomToken

/-- The audience of every custom token that is minted. -/
def usualAudience : String :=
  "https://identitytoolkit.googleapis.com/google.identity.identitytoolkit.v1.IdentityToolkit"

/-- In seconds. -/
def lifetime : Int64 := 3600

/-- The token that an account issues for a user. -/
def issue (email : String) (now : Int64) (uid : String) (claims : List (String × Json))
    (tenant : Option String) : CustomToken where
  issuer := email
  subject := email
  audience := usualAudience
  issuedAt := now
  expires := now + lifetime
  uid := uid
  claims := claims
  tenant := tenant

/-- Developer claims are left out when there are none. -/
def toJson (t : CustomToken) : Json :=
  .object <| [("iss", .text t.issuer), ("sub", .text t.subject), ("aud", .text t.audience),
    ("iat", .ofInt64 t.issuedAt), ("exp", .ofInt64 t.expires), ("uid", .text t.uid)] ++
    (if t.claims.isEmpty then [] else [("claims", .object t.claims)]) ++
    (match t.tenant with | none => [] | some id => [("tenant_id", .text id)])

open Json

def form : Form CustomToken where
  title := "struct CustomTokenPayload"
  fields := [
    field "iss" .never Reader.text fun v t => { t with issuer := v },
    field "sub" .never Reader.text fun v t => { t with subject := v },
    field "aud" .never Reader.text fun v t => { t with audience := v },
    field "iat" .never Reader.time fun v t => { t with issuedAt := v },
    field "exp" .never Reader.time fun v t => { t with expires := v },
    field "uid" .never Reader.text fun v t => { t with uid := v },
    deepField "claims" .always (Reader.map · Reader.value) fun v t =>
      { t with claims := settleMembers (settledMembers v) },
    field "tenant_id" .always (Reader.optional Reader.text) fun v t => { t with tenant := v }]
  blank := ⟨"", "", "", 0, 0, "", [], none⟩

def decode (s : Bytes) : Except Json.Error CustomToken := form.decode s

end CustomToken

end IdentityTokens
