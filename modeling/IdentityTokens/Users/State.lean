import IdentityTokens.Error
import IdentityTokens.Clock
import IdentityTokens.Kind

/-! What is known of a user besides a token: whether the account is disabled, and
from when on its tokens count. A token of a disabled user is refused, and one
issued before that time is revoked. -/
namespace IdentityTokens

structure UserState where
  disabled : Bool
  /-- In milliseconds since 1970. -/
  validAfter : Int64
deriving DecidableEq, Repr

namespace UserState

/-- Seconds as milliseconds, as far as they go. -/
def millis (seconds : Int64) : Int64 := clamp (seconds.toInt * 1000)

def disabledError (kind : Kind) : AuthError :=
  (AuthError.invalidArgument .userDisabled "user has been disabled").withParent kind.invalidCode

def revokedError (kind : Kind) : AuthError :=
  (AuthError.invalidArgument kind.revokedCode (kind.shortName ++ " has been revoked")).withParent
    kind.invalidCode

/-- Whether a token issued at a time, in seconds, still counts. -/
def check (s : UserState) (kind : Kind) (issuedAt : Int64) : Except AuthError Unit :=
  if s.disabled then .error (disabledError kind)
  else if millis issuedAt < s.validAfter then .error (revokedError kind)
  else .ok ()

end UserState

end IdentityTokens
