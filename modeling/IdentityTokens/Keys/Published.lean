import IdentityTokens.Call.Web
import IdentityTokens.Keys.Document
import IdentityTokens.Keys.MaxAge

/-! Keys published at an address. They are kept until the answer's age is up, and
for want of better ones beyond it. One call at a time looks whether they are due
and fetches new ones; the others wait and look again. -/
namespace IdentityTokens

namespace KeyCache

/-- The last snapshot, if there is any key in it. -/
def usable? (c : KeyCache) : Option KeySnapshot := c.latest.filter fun s => !s.isEmpty

/-- The last snapshot, if it need not be refreshed yet. -/
def fresh? (c : KeyCache) (now : Int64) : Option KeySnapshot :=
  c.usable?.filter fun s => !s.isExpired now

end KeyCache

namespace PublishedKeys

def rejected (r : Response) : AuthError :=
  let status := r.status
  certificateError (s!"invalid response ({status}) while retrieving public keys: " ++ r.text)

/-- The end of an age that starts now, within the range of times. -/
def expiry (now : Int64) (maxAge : Nat) : Int64 :=
  clamp (now.toInt + min (maxAge : Int) Int64.maxValue.toInt)

def contents (r : Response) : Except AuthError (List TrustedKey × Nat) := do
  if !r.isSuccess then .error (rejected r)
  let keys ← KeyDocument.read r.body
  let maxAge ← MaxAge.ofHeader (r.header? "cache-control")
  .ok (keys, maxAge)

def fetch (url : String) : Call KeySnapshot := do
  let response ← (Web.get url []).mapError (·.withCode .certificateFetchFailed)
  let (keys, maxAge) ← contents response
  return KeySnapshot.ofKeys keys (expiry (← Call.now) maxAge)

def refresh (kind : Kind) (url : String) : Call KeySnapshot := do
  match ← (fetch url).attempt with
  | .ok s =>
    Call.remember (Memory.replaceKeys kind s)
    return s
  | .error e =>
    match ((← Call.memory).keys kind).usable? with
    | some s => return s
    | none => Call.fail e

def keys (kind : Kind) (url : String) : Call KeySnapshot :=
  Call.behind (.keys kind) do
    let cache := (← Call.memory).keys kind
    match cache.fresh? (← Call.now) with
    | some s => return s
    | none => refresh kind url

end PublishedKeys

end IdentityTokens
