import IdentityTokens.Base64
import IdentityTokens.Error
import IdentityTokens.Net.Url

/-! One exchange on the web: what is sent, what comes back, and what may go wrong
on the way. -/
namespace IdentityTokens

inductive Method where
  | get
  | post
deriving DecidableEq, Repr

def Method.name : Method → String
  | get => "GET"
  | post => "POST"

/-- Names of headers are in lower case. -/
structure Request where
  method : Method
  url : Url
  headers : List (String × String)
  body : String
deriving DecidableEq, Repr

structure Response where
  status : Nat
  headers : List (String × Bytes)
  body : Bytes
deriving DecidableEq, Repr

namespace Response

def isSuccess (r : Response) : Bool := 200 ≤ r.status && r.status < 300

def isReadable (b : UInt8) : Bool := b = 9 || (32 ≤ b && b < 127)

/-- The first header of a name, whatever its case; one that is not plain ASCII
counts as absent. -/
def header? (r : Response) (name : String) : Option String :=
  match r.headers.find? fun h => h.1.toLower = name.toLower with
  | some (_, v) => if v.all isReadable then some (Text.ofBytesLossy v) else none
  | none => none

def text (r : Response) : String := Text.ofBytesLossy r.body

end Response

inductive Outcome where
  | answered (response : Response)
  | refused
  | timedOut
  /-- The connection broke before an answer. -/
  | lost
  /-- The body of the answer broke off. -/
  | truncated
deriving DecidableEq, Repr

/-- Why there is no answer. -/
inductive TransportFault where
  | unsendable
  | otherScheme (shown : String)
  | refused (url : Url)
  | timedOut (url : Url)
  | lost (url : Url)
  | truncated (url : Url)
deriving DecidableEq, Repr

namespace TransportFault

def sending (url : Url) : String := "error sending request for url (" ++ url.text ++ ")"

def failed (message : String) : AuthError :=
  .unknown ("error while making http call: " ++ message)

def error : TransportFault → AuthError
  | unsendable => failed "builder error"
  | otherScheme shown => failed ("builder error for url (" ++ shown ++ ")")
  | refused url =>
    .of .unavailable .unknown ("failed to establish a connection: " ++ sending url)
  | timedOut url =>
    .of .deadlineExceeded .unknown ("timed out while making an http call: " ++ sending url)
  | lost url => failed (sending url)
  | truncated url => failed ("error decoding response body for url (" ++ url.text ++ ")")

end TransportFault

namespace Request

def isTokenChar (c : Char) : Bool :=
  c.isAlphanum || "!#$%&*+-.^_|~".toList.contains c || c = Char.ofNat 39 || c = Char.ofNat 96

def isFieldByte (b : UInt8) : Bool := b = 9 || (32 ≤ b && b ≠ 127)

/-- Whether a header can be sent at all. -/
def isHeader (h : String × String) : Bool :=
  !h.1.isEmpty && h.1.toList.all isTokenChar && (Text.bytes h.2).all isFieldByte

def basic (login : String × String) : String :=
  "Basic " ++ Base64.encodeText Base64.standard (Text.bytes (login.1 ++ ":" ++ login.2))

def loginHeaders (u : Url) : List (String × String) :=
  match u.login with
  | none => []
  | some login => [("authorization", basic login)]

/-- The request as it is sent; a login in the address becomes a header. -/
def build (method : Method) (url : String) (headers : List (String × String)) (body : String) :
    Except TransportFault Request :=
  match Url.parse url with
  | .error .unreadable => .error .unsendable
  | .error (.otherScheme shown) => .error (.otherScheme shown)
  | .ok u =>
    if headers.all isHeader then
      .ok ⟨method, u, loginHeaders u ++ headers.map fun h => (h.1.toLower, h.2), body⟩
    else .error .unsendable

def received (r : Request) : Outcome → Except TransportFault Response
  | .answered response => .ok response
  | .refused => .error (.refused r.url)
  | .timedOut => .error (.timedOut r.url)
  | .lost => .error (.lost r.url)
  | .truncated => .error (.truncated r.url)

end Request

end IdentityTokens
