import IdentityTokens.Error

/-! The two kinds of token that can be verified, and what is particular to each:
its names in messages, its issuer, its keys and its codes. -/
namespace IdentityTokens

inductive Kind where
  | idToken
  | sessionCookie
deriving DecidableEq, Repr

namespace Kind

def shortName : Kind → String
  | idToken => "ID token"
  | sessionCookie => "session cookie"

def articledName : Kind → String
  | idToken => "an ID token"
  | sessionCookie => "a session cookie"

def docUrl : Kind → String
  | idToken => "https://firebase.google.com/docs/auth/admin/verify-id-tokens"
  | sessionCookie => "https://firebase.google.com/docs/auth/admin/manage-cookies"

/-- The issuer of a token is this with the project ID behind it. -/
def issuerStart : Kind → String
  | idToken => "https://securetoken.google.com/"
  | sessionCookie => "https://session.firebase.google.com/"

def issuer (kind : Kind) (project : String) : String := kind.issuerStart ++ project

/-- Where the public keys are published. -/
def certUrl : Kind → String
  | idToken =>
    "https://www.googleapis.com/robot/v1/metadata/x509/securetoken@system.gserviceaccount.com"
  | sessionCookie => "https://www.googleapis.com/identitytoolkit/v3/relyingparty/publicKeys"

def invalidCode : Kind → Code
  | idToken => .idTokenInvalid
  | sessionCookie => .sessionCookieInvalid

def expiredCode : Kind → Code
  | idToken => .idTokenExpired
  | sessionCookie => .sessionCookieExpired

def revokedCode : Kind → Code
  | idToken => .idTokenRevoked
  | sessionCookie => .sessionCookieRevoked

def projectHint (kind : Kind) : String :=
  "make sure the " ++ kind.shortName ++ " comes from the same Firebase project as the " ++
    "credential used to authenticate this SDK"

def docHint (kind : Kind) : String :=
  "see " ++ kind.docUrl ++ " for details on how to retrieve a valid " ++ kind.shortName

end Kind

end IdentityTokens
