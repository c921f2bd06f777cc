import IdentityTokens.Json.Form

/-! Errors of authentication. Each has a coarse category, a code of its own, and
sometimes a second code it is also reported under; callers branch on these and
never on the message. -/
namespace IdentityTokens

inductive Category where
  | invalidArgument
  | failedPrecondition
  | unauthenticated
  | permissionDenied
  | notFound
  | conflict
  | resourceExhausted
  | cancelled
  | dataLoss
  | unknown
  | internal
  | unavailable
  | deadlineExceeded
deriving DecidableEq, Repr

namespace Category

def all : List Category :=
  [invalidArgument, failedPrecondition, unauthenticated, permissionDenied, notFound, conflict,
    resourceExhausted, cancelled, dataLoss, unknown, internal, unavailable, deadlineExceeded]

def name : Category → String
  | invalidArgument => "INVALID_ARGUMENT"
  | failedPrecondition => "FAILED_PRECONDITION"
  | unauthenticated => "UNAUTHENTICATED"
  | permissionDenied => "PERMISSION_DENIED"
  | notFound => "NOT_FOUND"
  | conflict => "CONFLICT"
  | resourceExhausted => "RESOURCE_EXHAUSTED"
  | cancelled => "CANCELLED"
  | dataLoss => "DATA_LOSS"
  | unknown => "UNKNOWN"
  | internal => "INTERNAL"
  | unavailable => "UNAVAILABLE"
  | deadlineExceeded => "DEADLINE_EXCEEDED"

def ofHttpStatus : Nat → Category
  | 400 => invalidArgument
  | 401 => unauthenticated
  | 403 => permissionDenied
  | 404 => notFound
  | 409 => conflict
  | 429 => resourceExhausted
  | 500 => internal
  | 503 => unavailable
  | _ => unknown

/-- A status that a platform names in its error bodies: the name of a category,
or another name for a conflict. -/
def ofPlatformStatus? (status : String) : Option Category :=
  if status = "ALREADY_EXISTS" ∨ status = "ABORTED" then some conflict
  else all.find? (·.name = status)

end Category

inductive Code where
  | idTokenInvalid
  | idTokenExpired
  | idTokenRevoked
  | sessionCookieInvalid
  | sessionCookieExpired
  | sessionCookieRevoked
  | userDisabled
  | userNotFound
  | certificateFetchFailed
  | invalidCredential
  | insufficientPermission
  | tenantIdMismatch
  | invalidUid
  | reservedClaims
  | unknown
deriving DecidableEq, Repr

namespace Code

def all : List Code :=
  [idTokenInvalid, idTokenExpired, idTokenRevoked, sessionCookieInvalid, sessionCookieExpired,
    sessionCookieRevoked, userDisabled, userNotFound, certificateFetchFailed, invalidCredential,
    insufficientPermission, tenantIdMismatch, invalidUid, reservedClaims, unknown]

def name : Code → String
  | idTokenInvalid => "ID_TOKEN_INVALID"
  | idTokenExpired => "ID_TOKEN_EXPIRED"
  | idTokenRevoked => "ID_TOKEN_REVOKED"
  | sessionCookieInvalid => "SESSION_COOKIE_INVALID"
  | sessionCookieExpired => "SESSION_COOKIE_EXPIRED"
  | sessionCookieRevoked => "SESSION_COOKIE_REVOKED"
  | userDisabled => "USER_DISABLED"
  | userNotFound => "USER_NOT_FOUND"
  | certificateFetchFailed => "CERTIFICATE_FETCH_FAILED"
  | invalidCredential => "INVALID_CREDENTIAL"
  | insufficientPermission => "INSUFFICIENT_PERMISSION"
  | tenantIdMismatch => "TENANT_ID_MISMATCH"
  | invalidUid => "INVALID_UID"
  | reservedClaims => "RESERVED_CLAIMS"
  | unknown => "UNKNOWN"

end Code

structure AuthError where
  category : Category
  code : Code
  parent : Option Code
  message : String
deriving DecidableEq, Repr

namespace AuthError

def of (category : Category) (code : Code) (message : String) : AuthError :=
  ⟨category, code, none, message⟩

def invalidArgument (code : Code) (message : String) : AuthError :=
  of .invalidArgument code message

def unknown (message : String) : AuthError := of .unknown .unknown message

def cancelled : AuthError := of .cancelled .unknown "operation cancelled"

def withCode (e : AuthError) (code : Code) : AuthError := { e with code }

def withParent (e : AuthError) (parent : Code) : AuthError := { e with parent := some parent }

def withMessage (e : AuthError) (message : String) : AuthError := { e with message }

/-- Whether the error is reported under `code`, as its own or as its parent. -/
def hasCode (e : AuthError) (code : Code) : Bool := e.code == code || e.parent == some code

/-- What a platform says about an error: both parts may be missing. -/
structure Detail where
  status : Option String
  message : Option String

open Json

def detailForm : Form Detail where
  title := "struct Detail"
  fields := [
    field "status" .inList (Reader.optional Reader.text) fun v d => { d with status := v },
    field "message" .inList (Reader.optional Reader.text) fun v d => { d with message := v }]
  blank := ⟨none, none⟩

def envelopeForm : Form (Option Detail) where
  title := "struct Envelope"
  fields := [
    deepField "error" .inList (fun room => Reader.optional (detailForm.read room)) fun v _ => v]
  blank := none

/-- The error that an answer without success stands for. The status in its body
comes before the one of the answer, and a body without a message is shown whole. -/
def ofPlatformResponse (status : Nat) (body : Bytes) : AuthError :=
  let detail := (envelopeForm.decode body).toOption.join
  let named := (detail.bind (·.status)).bind Category.ofPlatformStatus?
  let category := named.getD (Category.ofHttpStatus status)
  let message := (detail.bind (·.message)).filter (· ≠ "")
  of category .unknown <| message.getD
    (s!"unexpected http response with status: {status}\n" ++ Text.ofBytesLossy body)

end AuthError

end IdentityTokens
