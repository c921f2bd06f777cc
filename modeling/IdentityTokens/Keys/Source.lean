import IdentityTokens.Keys.Published
import IdentityTokens.Keys.Stored

/-! Where the trusted keys for a kind of token come from. -/
namespace IdentityTokens

inductive KeySource where
  | fixed (snapshot : KeySnapshot)
  | published (url : String)
  | stored (path : String)
  /-- A collaborator of the caller's own. -/
  | custom
deriving DecidableEq, Repr

/-- The keys that are trusted now. -/
def KeySource.keys (source : KeySource) (kind : Kind) : Call KeySnapshot :=
  match source with
  | fixed s => return s
  | published url => PublishedKeys.keys kind url
  | stored path => StoredKeys.keys kind path
  | custom => Call.trustedKeys kind

end IdentityTokens
