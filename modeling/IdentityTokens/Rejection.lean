import IdentityTokens.Jwt
import IdentityTokens.Kind
import IdentityTokens.Text.Quoted

/-! Why a token is not accepted, short of its keys not being there. All of these
but an expiry are reported under the code for invalid tokens. -/
namespace IdentityTokens

inductive Rejection where
  | noProject
  | emptyToken
  | codec (error : CodecError)
  | customToken
  | noKeyId
  /-- The expected algorithm is one of two for an emulator. -/
  | algorithm (emulator : Bool) (got : String)
  | audience (expected got : String)
  | issuer (expected got : String)
  | emptySubject
  | longSubject
  | issuedInFuture (time : Int64)
  | expired (time : Int64)
  | signature

namespace Rejection

def timeText (t : Int64) : String :=
  let n := t.toInt
  s!"{n}"

def mismatch (kind : Kind) (claim expected got : String) : String :=
  kind.shortName ++ " has invalid " ++ claim ++ " claim; expected " ++ Text.quoted expected ++
    " but got " ++ Text.quoted got ++ "; " ++ kind.projectHint ++ "; " ++ kind.docHint

def message (kind : Kind) : Rejection → String
  | noProject => "project id not available"
  | emptyToken => kind.shortName ++ " must be a non-empty string"
  | codec e => e.message
  | customToken => "expected " ++ kind.articledName ++ " but got a custom token"
  | noKeyId => kind.shortName ++ " has no 'kid' header"
  | algorithm false got =>
    kind.shortName ++ " has invalid algorithm; expected 'RS256' but got " ++ Text.quoted got ++
      "; " ++ kind.projectHint
  | algorithm true got =>
    kind.shortName ++ " has invalid algorithm; expected 'RS256' or 'none' but got " ++
      Text.quoted got
  | audience expected got => mismatch kind "'aud' (audience)" expected got
  | issuer expected got => mismatch kind "'iss' (issuer)" expected got
  | emptySubject => kind.shortName ++ " has empty 'sub' (subject) claim; " ++ kind.docHint
  | longSubject =>
    kind.shortName ++ " has a 'sub' (subject) claim longer than 128 characters; " ++ kind.docHint
  | issuedInFuture t => kind.shortName ++ " issued at future timestamp: " ++ timeText t
  | expired t => kind.shortName ++ " has expired at: " ++ timeText t
  | signature => "failed to verify token signature"

def code (kind : Kind) : Rejection → Code
  | expired _ => kind.expiredCode
  | _ => kind.invalidCode

def error (kind : Kind) (r : Rejection) : AuthError :=
  .invalidArgument (r.code kind) (r.message kind)

end Rejection

end IdentityTokens
