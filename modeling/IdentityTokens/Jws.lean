import IdentityTokens.Jwt
import IdentityTokens.Rsa.Signature

/-! Signed tokens as a whole: besides the signature itself, the header must be
one that a signed token may have and the payload one that can hold claims. What
the claims say does not count. -/
namespace IdentityTokens.Jws

open Json

def count (name : String) (members : List (String × Json)) : Nat :=
  (names members).count name

def isText : Json → Bool
  | .text _ => true
  | _ => false

def isNull : Json → Bool
  | .null => true
  | _ => false

def isTextOrNull (v : Json) : Bool := isText v || isNull v

def isTexts : Json → Bool
  | .array items => items.all isText
  | _ => false

def isTextsOrNull (v : Json) : Bool := isTexts v || isNull v

/-- A name out of an enumeration, also as the one member of an object. -/
def enumName? : Json → Option String
  | .text s => some s
  | .object [(n, .null)] => some n
  | _ => none

def isEnum (allowed : String → Bool) (v : Json) : Bool :=
  match enumName? v with
  | some n => allowed n
  | none => false

/-- Each member that has a check passes it and comes once at most. -/
def membersPass (checks : List (String × (Json → Bool))) (members : List (String × Json)) : Bool :=
  checks.all fun c =>
    count c.1 members ≤ 1 && members.all fun m => m.1 != c.1 || c.2 m.2

/-- The same, and every one of them is there. -/
def membersThere (checks : List (String × (Json → Bool))) (members : List (String × Json)) : Bool :=
  membersPass checks members && checks.all fun c => count c.1 members == 1

def curves : List String := ["P-256", "P-384", "P-521", "Ed25519"]

def ofType (name : String) : String × (Json → Bool) := ("kty", isEnum (· == name))

def keyShapes : List (List (String × (Json → Bool))) := [
  [ofType "EC", ("crv", isEnum curves.contains), ("x", isText), ("y", isText)],
  [ofType "RSA", ("n", isText), ("e", isText)],
  [ofType "oct", ("k", isText)],
  [ofType "OKP", ("crv", isEnum curves.contains), ("x", isText)]]

def keyMembers : List (String × (Json → Bool)) := [
  ("use", isTextOrNull), ("key_ops", isTextsOrNull), ("kid", isTextOrNull),
  ("alg", fun v => isNull v || isEnum (fun _ => true) v), ("x5u", isTextOrNull),
  ("x5c", isTextsOrNull), ("x5t", isTextOrNull), ("x5t#S256", isTextOrNull)]

/-- A key in JSON form. -/
def isKey : Json → Bool
  | .object members => membersPass keyMembers members && keyShapes.any (membersThere · members)
  | _ => false

def headerMembers : List (String × (Json → Bool)) := [
  ("alg", isEnum (· == JwtHeader.rs256)), ("typ", isTextOrNull), ("cty", isTextOrNull),
  ("jku", isTextOrNull), ("jwk", fun v => isKey v || isNull v), ("kid", isTextOrNull),
  ("x5u", isTextOrNull), ("x5c", isTextsOrNull), ("x5t", isTextOrNull),
  ("x5t#S256", isTextOrNull), ("crit", isTextsOrNull), ("enc", isTextOrNull),
  ("zip", isTextOrNull), ("url", isTextOrNull), ("nonce", isTextOrNull)]

def isHeader : Json → Bool
  | .object members =>
    membersPass headerMembers members && count "alg" members == 1 &&
      members.all fun m => (names headerMembers).contains m.1 || isText m.2
  | _ => false

/-- A time may be of any type, but not a list or an object with something in it. -/
def isTime : Json → Bool
  | .array items => items.isEmpty
  | .object members => members.isEmpty
  | _ => true

def isSubject : Json → Bool
  | .array _ => false
  | .object _ => false
  | _ => true

def payloadMembers : List (String × (Json → Bool)) := [
  ("exp", isTime), ("nbf", isTime), ("sub", isSubject), ("iss", fun _ => true),
  ("aud", fun _ => true)]

/-- An object, or a list of the registered claims alone. -/
def isPayload : Json → Bool
  | .object members => membersPass payloadMembers members
  | .array [exp, nbf, sub, _, _] => isTime exp && isTime nbf && isSubject sub
  | _ => false

/-- Header, payload and signature; a dot too many is the header's. -/
def parts? (token : String) : Option Segments :=
  match (Segments.cut token).reverse with
  | signature :: payload :: header :: more =>
    let joined := ['.'].intercalate (more.reverse ++ [header])
    some ⟨String.ofList joined, String.ofList payload, String.ofList signature⟩
  | _ => none

def readRaw? (segment : String) : Option Json :=
  (Segment.decode Json.readRaw segment).toOption

/-- Whether a key signed the token and the token is a signed token at all. -/
def verifies (key : Rsa.PublicKey) (token : String) : Bool :=
  match parts? token with
  | none => false
  | some s =>
    (readRaw? s.header).any isHeader &&
      (s.readSignature.toOption).any (key.verifies (Text.bytes s.signingInput)) &&
      (readRaw? s.payload).any isPayload

end IdentityTokens.Jws
