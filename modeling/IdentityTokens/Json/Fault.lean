import IdentityTokens.Text.Utf8
import IdentityTokens.Text.Quoted
import IdentityTokens.Json.Printer

/-! What can be wrong with a JSON document, and where. A fault carries the bytes
from its place to the end of the document; lines and columns are counted from
what stands before them. -/
namespace IdentityTokens.Json

/-- What stands where something else was expected. -/
inductive Found where
  | null
  | bool (b : Bool)
  | integer (n : Int)
  | double (d : Double)
  | text (s : String)
  | sequence
  | map

def Found.describe : Found → String
  | .null => "null"
  | .bool b => s!"boolean `{b}`"
  | .integer n => "integer `" ++ String.ofList (renderInt n) ++ "`"
  | .double d => "floating point `" ++ String.ofList d.render ++ "`"
  | .text s => "string " ++ Text.quoted s
  | .sequence => "sequence"
  | .map => "map"

inductive Cause where
  | endOfList
  | endOfObject
  | endOfText
  | endOfValue
  | expectedColon
  | expectedListCommaOrEnd
  | expectedObjectCommaOrEnd
  | expectedIdent
  | expectedValue
  | invalidEscape
  | invalidNumber
  | numberOutOfRange
  | invalidCodePoint
  | controlCharacter
  | keyMustBeText
  | loneSurrogate
  | trailingComma
  | trailingCharacters
  | endOfEscape
  | tooDeep
  | wrongType (found : Found) (expected : String)
  | wrongValue (found : Found) (expected : String)
  | wrongLength (length : Nat) (expected : String)
  | missingField (name : String)
  | duplicateField (name : String)
  | unknownField (name : String) (known : String)
  | durationOverflow

def Cause.describe : Cause → String
  | .endOfList => "EOF while parsing a list"
  | .endOfObject => "EOF while parsing an object"
  | .endOfText => "EOF while parsing a string"
  | .endOfValue => "EOF while parsing a value"
  | .expectedColon => "expected `:`"
  | .expectedListCommaOrEnd => "expected `,` or `]`"
  | .expectedObjectCommaOrEnd => "expected `,` or `\x7d`"
  | .expectedIdent => "expected ident"
  | .expectedValue => "expected value"
  | .invalidEscape => "invalid escape"
  | .invalidNumber => "invalid number"
  | .numberOutOfRange => "number out of range"
  | .invalidCodePoint => "invalid unicode code point"
  | .controlCharacter => "control character (\\u0000-\\u001F) found while parsing a string"
  | .keyMustBeText => "key must be a string"
  | .loneSurrogate => "lone leading surrogate in hex escape"
  | .trailingComma => "trailing comma"
  | .trailingCharacters => "trailing characters"
  | .endOfEscape => "unexpected end of hex escape"
  | .tooDeep => "recursion limit exceeded"
  | .wrongType found expected => s!"invalid type: {found.describe}, expected {expected}"
  | .wrongValue found expected => s!"invalid value: {found.describe}, expected {expected}"
  | .wrongLength length expected => s!"invalid length {length}, expected {expected}"
  | .missingField name => s!"missing field `{name}`"
  | .duplicateField name => s!"duplicate field `{name}`"
  | .unknownField name known => s!"unknown field `{name}`, expected {known}"
  | .durationOverflow => "overflow deserializing Duration"

structure Fault where
  cause : Cause
  rest : Bytes

/-- At the byte before the rest. -/
def here (cause : Cause) (rest : Bytes) : Fault := ⟨cause, rest⟩

/-- At the first byte of the rest, or at the end. -/
def ahead (cause : Cause) (rest : Bytes) : Fault := ⟨cause, rest.tail⟩

/-- A fault with the line and the column of its place in a document. -/
structure Error where
  cause : Cause
  line : Nat
  column : Nat

def newline : UInt8 := '\n'.toUInt8

def Fault.locate (text : Bytes) (f : Fault) : Error :=
  let before := (text.take (text.length - f.rest.length)).reverse
  ⟨f.cause, before.count newline + 1, (before.takeWhile (· != newline)).length⟩

def Error.message (e : Error) : String :=
  s!"{e.cause.describe} at line {e.line} column {e.column}"

end IdentityTokens.Json
