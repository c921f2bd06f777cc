import IdentityTokens.Token
import IdentityTokens.Users.Lookup

/-! Whether a verified token still counts for its user. -/
namespace IdentityTokens

/-- Who knows the users. -/
inductive Users where
  | lookup (lookup : UserLookup)
  /-- A collaborator of the caller's own. -/
  | custom
deriving DecidableEq, Repr

namespace Users

def state (users : Users) (uid : String) : Call UserState :=
  match users with
  | lookup l => l.state uid
  | custom => Call.userState uid

/-- A collaborator of the caller's own stays the same for each tenant. -/
def forTenant (users : Users) (id : String) : Users :=
  match users with
  | lookup l => lookup (l.forTenant id)
  | custom => custom

def check (users : Users) (kind : Kind) (t : IdToken) : Call Unit := do
  let s ← users.state t.uid
  s.check kind t.issuedAt

end Users

end IdentityTokens
