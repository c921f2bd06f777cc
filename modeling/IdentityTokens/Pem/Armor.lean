import IdentityTokens.Base64
import IdentityTokens.Text.Blank
import IdentityTokens.Text.Cut

/-! Armored documents as certificates come in: anything may stand around them,
lines may have any length and headers may come first. -/
namespace IdentityTokens.Pem

structure Armor where
  label : String
  content : Bytes

namespace Armor

/-- Cuts at the first `mark`. `found` bytes of it have been seen at the end of the
reversed `before`; a byte that breaks a match is not tried as the start of another. -/
def cutFrom (mark : Bytes) : Nat → Bytes → Bytes → Option (Bytes × Bytes)
  | _, _, [] => none
  | found, before, b :: rest =>
    let found := if mark[found]? = some b then found + 1 else 0
    if found = mark.length then some (((b :: before).drop found).reverse, rest)
    else cutFrom mark found (b :: before) rest

def cut (mark : String) (b : Bytes) : Option (Bytes × Bytes) := cutFrom (Text.bytes mark) 0 [] b

def isSpace (b : UInt8) : Bool :=
  b == ' '.toUInt8 || b == '\t'.toUInt8 || b == '\n'.toUInt8 || b == '\r'.toUInt8

/-- Headers end at the first empty line. -/
def headersAndData (body : Bytes) : Bytes × Bytes :=
  ((cut "\n\n" body).orElse fun _ => cut "\r\n\r\n" body).getD ([], body)

def linesOf (s : List Char) : List (List Char) :=
  let parts := Text.cut (· = '\n') s
  if parts.getLast? = some [] then parts.dropLast else parts

def areHeaders (b : Bytes) : Bool :=
  match Utf8.decode? b with
  | none => false
  | some s => (linesOf s).all fun line => line.contains ':'

def ofBytes? (b : Bytes) : Option Armor := do
  let (_, b) ← cut "-----BEGIN " b
  let (label, b) ← cut "-----" b
  let (body, b) ← cut "-----END " (b.dropWhile isSpace)
  let (endLabel, _) ← cut "-----" b
  let label ← Text.ofBytes? label
  let (headers, data) := headersAndData body
  let text ← Utf8.decode? data
  if label ≠ "" ∧ Text.bytes label = endLabel ∧ areHeaders headers then
    let content ← (Base64.decode Base64.standard
      (Utf8.encode (text.filter fun c => !Text.isBlank c))).toOption
    some ⟨label, content⟩
  else none

end Armor

end IdentityTokens.Pem
