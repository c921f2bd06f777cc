import IdentityTokens.Base64
import IdentityTokens.Json.Form
import IdentityTokens.Text.Cut

/-! Compact tokens: a header, a payload and a signature, each in base 64 and
joined by dots. Nothing here looks at what the payload claims. -/
namespace IdentityTokens

/-- Why a part of a token cannot be read. -/
inductive CodecError where
  | segments
  | base64 (fault : Base64.Fault)
  | json (error : Json.Error)

def CodecError.message : CodecError → String
  | .segments => "incorrect number of segments"
  | .base64 fault => fault.message
  | .json error => error.message

structure JwtHeader where
  algorithm : String
  type : String
  keyId : Option String
deriving DecidableEq, Repr

namespace JwtHeader

def rs256 : String := "RS256"
def unsigned : String := "none"

/-- The header of a token that names no key. -/
def ofAlgorithm (algorithm : String) : JwtHeader := ⟨algorithm, "JWT", none⟩

/-- The key ID, unless it is empty. -/
def keyId? (h : JwtHeader) : Option String := h.keyId.filter (· ≠ "")

open Json

def form : Form JwtHeader where
  title := "struct JwtHeader"
  fields := [
    field "alg" .always Reader.text fun v h => { h with algorithm := v },
    field "typ" .always Reader.text fun v h => { h with type := v },
    field "kid" .always (Reader.optional Reader.text) fun v h => { h with keyId := v }]
  blank := ⟨"", "", none⟩

/-- An empty type and an absent key ID are left out. -/
def toJson (h : JwtHeader) : Json :=
  .object <| ("alg", .text h.algorithm) ::
    (if h.type = "" then [] else [("typ", .text h.type)]) ++
    (match h.keyId with | none => [] | some kid => [("kid", .text kid)])

end JwtHeader

/-- The three parts as they stand in the token. -/
structure Segments where
  header : String
  payload : String
  signature : String
deriving DecidableEq, Repr

namespace Segment

def encode (v : Json) : String := Base64.encodeText Base64.url (Text.bytes v.compact)

def decodeBytes (s : String) : Except CodecError Bytes :=
  (Base64.decodeText Base64.url s).mapError .base64

def decode {α : Type} (read : Bytes → Except Json.Error α) (s : String) : Except CodecError α := do
  let bytes ← decodeBytes s
  (read bytes).mapError .json

end Segment

namespace Segments

def cut (token : String) : List (List Char) := Text.cut (· = '.') token.toList

def split (token : String) : Except CodecError Segments :=
  match cut token with
  | [h, p, s] => .ok ⟨String.ofList h, String.ofList p, String.ofList s⟩
  | _ => .error .segments

def readHeader (s : Segments) : Except CodecError JwtHeader :=
  Segment.decode JwtHeader.form.decode s.header

def readPayload {α : Type} (read : Bytes → Except Json.Error α) (s : Segments) :
    Except CodecError α :=
  Segment.decode read s.payload

def readSignature (s : Segments) : Except CodecError Bytes := Segment.decodeBytes s.signature

/-- What the signature is made over. -/
def signingInput (s : Segments) : String := s.header ++ "." ++ s.payload

end Segments

namespace Jwt

def signingInput (header : JwtHeader) (payload : Json) : String :=
  Segment.encode header.toJson ++ "." ++ Segment.encode payload

def assemble (signingInput : String) (signature : Bytes) : String :=
  signingInput ++ "." ++ Base64.encodeText Base64.url signature

end Jwt

end IdentityTokens
