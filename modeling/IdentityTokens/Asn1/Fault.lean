import IdentityTokens.Octets
import IdentityTokens.Json.Printer

/-! What can be wrong with a distinguished encoding, and where. -/
namespace IdentityTokens.Asn1

/-- The first byte of a value: its class, shape and number. -/
abbrev Tag := UInt8

namespace Tag

def integer : Tag := 0x02
def bitString : Tag := 0x03
def octetString : Tag := 0x04
def null : Tag := 0x05
def objectId : Tag := 0x06
def sequence : Tag := 0x30

def number (t : Tag) : Nat := t.toNat % 32
def isConstructed (t : Tag) : Bool := t &&& 0x20 != 0
def isContextSpecific (t : Tag) : Bool := t &&& 0xC0 == 0x80

def universalNames : List (Tag × String) := [
  (0x01, "BOOLEAN"), (0x02, "INTEGER"), (0x03, "BIT STRING"), (0x04, "OCTET STRING"),
  (0x05, "NULL"), (0x06, "OBJECT IDENTIFIER"), (0x09, "REAL"), (0x0A, "ENUMERATED"),
  (0x0C, "UTF8String"), (0x12, "NumericString"), (0x13, "PrintableString"),
  (0x14, "TeletexString"), (0x15, "VideotexString"), (0x16, "IA5String"), (0x17, "UTCTime"),
  (0x18, "GeneralizedTime"), (0x1A, "VisibleString"), (0x1E, "BMPString"), (0x30, "SEQUENCE"),
  (0x31, "SET")]

def name (t : Tag) : String :=
  match universalNames.lookup t with
  | some s => s
  | none =>
    let cls :=
      if t < 0x80 then "APPLICATION" else if t < 0xC0 then "CONTEXT-SPECIFIC" else "PRIVATE"
    let shape := if t.isConstructed then "constructed" else "primitive"
    s!"{cls} [{t.number}] ({shape})"

end Tag

inductive Cause where
  | incomplete (expected actual : Nat)
  | unexpectedTag (expected : Option Tag) (actual : Tag)
  | trailing (decoded remaining : Nat)
  | unknownTag (byte : UInt8)
  | invalidTagNumber
  | badValue (tag : Tag)
  | notCanonical (tag : Tag)
  | badLength (tag : Tag)
  | overflow
  | indefiniteLength

def twoHexDigits (b : UInt8) : String :=
  String.ofList [Json.hexDigit (b.toNat / 16), Json.hexDigit (b.toNat % 16)]

def Cause.describe : Cause → String
  | .incomplete expected actual =>
    s!"ASN.1 DER message is incomplete: expected {expected}, actual {actual}"
  | .unexpectedTag (some expected) actual =>
    s!"unexpected ASN.1 DER tag: expected {expected.name}, got {actual.name}"
  | .unexpectedTag none actual => s!"unexpected ASN.1 DER tag: got {actual.name}"
  | .trailing decoded remaining =>
    s!"trailing data at end of DER message: decoded {decoded} bytes, " ++
      s!"{remaining} bytes remaining"
  | .unknownTag byte => "unknown/unsupported ASN.1 DER tag: 0x" ++ twoHexDigits byte
  | .invalidTagNumber => "invalid ASN.1 tag number"
  | .badValue tag => s!"malformed ASN.1 DER value for {tag.name}"
  | .notCanonical tag => s!"ASN.1 {tag.name} not canonically encoded as DER"
  | .badLength tag => s!"incorrect length for {tag.name}"
  | .overflow => "integer overflow"
  | .indefiniteLength => "indefinite length disallowed"

/-- A fault with the place it names, if any, and how far reading had come. -/
structure Fault where
  cause : Cause
  place : Option Nat
  reached : Nat

def Fault.message (f : Fault) : String :=
  match f.place with
  | none => f.cause.describe
  | some place => s!"{f.cause.describe} at DER byte {place}"

end IdentityTokens.Asn1
