import IdentityTokens.Base64

/-! Armored documents in strict form, as private keys come: a label, lines of 64
symbols, and the same label again, with nothing behind it. -/
namespace IdentityTokens.Pem

inductive Fault where
  | preamble
  | label
  | openingBoundary
  | closingBoundary
  | base64Encoding
  | base64Length
  | headers
  | unexpectedLabel (expected : String)

def Fault.message : Fault → String
  | .preamble => "PEM preamble contains invalid data (NUL byte)"
  | .label => "PEM type label invalid"
  | .openingBoundary => "PEM error in pre-encapsulation boundary"
  | .closingBoundary => "PEM error in post-encapsulation boundary"
  | .base64Encoding => "PEM Base64 error: invalid Base64 encoding"
  | .base64Length => "PEM Base64 error: invalid Base64 length"
  | .headers => "PEM headers disallowed by RFC7468"
  | .unexpectedLabel expected => s!"unexpected PEM type label: expecting \"{expected}\""

/-- A label and the bytes under it. -/
structure Document where
  label : String
  content : Bytes

namespace Document

def opening : Bytes := Text.bytes "-----BEGIN "
def closing : Bytes := Text.bytes "-----END "
def dashes : Bytes := Text.bytes "-----"
def lf : UInt8 := '\n'.toUInt8
def cr : UInt8 := '\r'.toUInt8

/-- What stands behind the opening mark, which starts a line. -/
def afterOpening : Bytes → Except Fault Bytes
  | [] => .error .preamble
  | b :: rest =>
    if b = 0 then .error .preamble
    else if b = lf ∧ opening.isPrefixOf rest then .ok (rest.drop opening.length)
    else afterOpening rest

def start (b : Bytes) : Except Fault Bytes :=
  if opening.isPrefixOf b then .ok (b.drop opening.length) else afterOpening b

def isLabelByte (b : UInt8) : Bool := (0x21 ≤ b && b ≤ 0x2C) || (0x2E ≤ b && b ≤ 0x7E)

def isLabelSpace (b : UInt8) : Bool := b == ' '.toUInt8 || b == '\t'.toUInt8

/-- The label up to a dash. Spaces stand between words, one at a time. -/
def labelFrom (first lastSpace : Bool) : Bytes → Option (Bytes × Bytes)
  | [] => some ([], [])
  | b :: rest =>
    if isLabelByte b then (labelFrom false false rest).map fun (l, rest) => (b :: l, rest)
    else if b = '-'.toUInt8 then some ([], b :: rest)
    else if !first && isLabelSpace b && !lastSpace then
      (labelFrom false true rest).map fun (l, rest) => (b :: l, rest)
    else none

def dropLineEnd? : Bytes → Option Bytes
  | [] => none
  | b :: rest =>
    if b = lf then some rest
    else if b = cr then
      match rest with
      | c :: rest' => if c = lf then some rest' else some rest
      | [] => some []
    else none

/-- Takes a line end off a reversed text. -/
def dropLastLineEnd? : Bytes → Option Bytes
  | [] => none
  | b :: rest =>
    if b = lf then
      match rest with
      | c :: rest' => if c = cr then some rest' else some rest
      | [] => some []
    else if b = cr then some rest
    else none

def takeLabel (b : Bytes) : Except Fault (Bytes × Bytes) :=
  match labelFrom true false b with
  | none => .error .label
  | some (l, rest) =>
    if dashes.isPrefixOf rest then
      match dropLineEnd? (rest.drop dashes.length) with
      | some body => .ok (l, body)
      | none => .error .label
    else .error .label

/-- Takes `part` off the end of a reversed text. -/
def dropLast? (part reversed : Bytes) : Option Bytes :=
  if part.reverse.isPrefixOf reversed then some (reversed.drop part.length) else none

/-- The lines between the marks, reversed as one text. -/
def body (l b : Bytes) : Except Fault Bytes :=
  let reversed := b.reverse
  match dropLast? dashes ((dropLastLineEnd? reversed).getD reversed) with
  | none => .error .openingBoundary
  | some reversed =>
    match (dropLast? l reversed).bind fun r => (dropLast? closing r).bind dropLastLineEnd? with
    | none => .error .closingBoundary
    | some reversed => .ok reversed.reverse

def lineLength : Nat := 64

/-- The symbols of the lines, all full but the last. The fuel bounds their number. -/
def symbols : Nat → Bytes → Option Bytes
  | 0, _ => none
  | fuel + 1, b =>
    if b.length ≤ lineLength then some b
    else do
      let rest ← dropLineEnd? (b.drop lineLength)
      let more ← symbols fuel rest
      some (b.take lineLength ++ more)

def decodeBody (b : Bytes) : Except Fault Bytes :=
  if b.isEmpty then .error .base64Length
  else
    match (symbols b.length b).bind fun s => (Base64.decode Base64.standard s).toOption with
    | some content => .ok content
    | none => .error .base64Encoding

/-- A colon hints at headers, which are not allowed. -/
def blameHeaders (b : Bytes) : Fault → Fault
  | .base64Encoding => if b.contains ':'.toUInt8 then .headers else .base64Encoding
  | f => f

def ofBytes (b : Bytes) : Except Fault Document :=
  Except.mapError (blameHeaders b) do
    let rest ← start b
    let (l, rest) ← takeLabel rest
    let text ← body l rest
    let content ← decodeBody text
    .ok ⟨Text.ofBytesLossy l, content⟩

def expectLabel (d : Document) (expected : String) : Except Fault Bytes :=
  if d.label = expected then .ok d.content else .error (.unexpectedLabel expected)

end Document

end IdentityTokens.Pem
