import IdentityTokens.Call.Basic
import IdentityTokens.Keys.Document

/-! Keys stored in a file. The first reading that succeeds counts for good. -/
namespace IdentityTokens.StoredKeys

def read (path : String) : Call KeySnapshot := do
  match ← Call.readFile path with
  | .error f =>
    Call.fail
      (certificateError ("failed to read public keys from " ++ path ++ ": " ++ f.message))
  | .ok b => return KeySnapshot.permanent (← KeyDocument.read b)

/-- What was read before, else what is read now. -/
def load (kind : Kind) (path : String) : Call KeySnapshot := do
  match ((← Call.memory).keys kind).latest with
  | some s => return s
  | none =>
    let s ← read path
    Call.remember (Memory.replaceKeys kind s)
    return s

def keys (kind : Kind) (path : String) : Call KeySnapshot := do
  Call.mayGoOn
  match ((← Call.memory).keys kind).latest with
  | some s => return s
  | none => Call.behind (.keys kind) (load kind path)

end IdentityTokens.StoredKeys
