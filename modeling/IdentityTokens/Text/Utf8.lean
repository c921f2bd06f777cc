/-! UTF-8 over lists of bytes. `pieces` cuts any bytes into characters and
ill-formed stretches; strict reading, lossy reading and the place of the first
fault are all read off it. -/
namespace IdentityTokens

abbrev Bytes := List UInt8

namespace Utf8

def encode (s : List Char) : Bytes := s.flatMap String.utf8EncodeChar

def isTail (b : UInt8) : Bool := 0x80 ≤ b && b < 0xC0

/-- Which second bytes may follow the first byte of a longer sequence: no
overlong form, no surrogate, nothing past the last code point. -/
def isSecond (a b : UInt8) : Bool :=
  if a == 0xE0 then 0xA0 ≤ b && b < 0xC0
  else if a == 0xED then 0x80 ≤ b && b < 0xA0
  else if a == 0xF0 then 0x90 ≤ b && b < 0xC0
  else if a == 0xF4 then 0x80 ≤ b && b < 0x90
  else isTail b

/-- The six low bits that a byte after the first carries. -/
def low (b : UInt8) : Nat := b.toNat % 64

def char1 (a : UInt8) : Char := Char.ofNat a.toNat
def char2 (a b : UInt8) : Char := Char.ofNat (a.toNat % 32 * 64 + low b)
def char3 (a b c : UInt8) : Char :=
  Char.ofNat (a.toNat % 16 * 4096 + low b * 64 + low c)
def char4 (a b c d : UInt8) : Char :=
  Char.ofNat (a.toNat % 8 * 262144 + low b * 4096 + low c * 64 + low d)

/-- Each character, and `none` for each longest prefix of a sequence that goes
wrong after it. -/
def pieces : Bytes → List (Option Char)
  | [] => []
  | a :: r =>
    if a < 0x80 then some (char1 a) :: pieces r
    else if a < 0xC2 then none :: pieces r
    else if a < 0xE0 then
      match r with
      | b :: r2 => if isTail b then some (char2 a b) :: pieces r2 else none :: pieces (b :: r2)
      | [] => [none]
    else if a < 0xF0 then
      match r with
      | b :: r2 =>
        if isSecond a b then
          match r2 with
          | c :: r3 =>
            if isTail c then some (char3 a b c) :: pieces r3 else none :: pieces (c :: r3)
          | [] => [none]
        else none :: pieces (b :: r2)
      | [] => [none]
    else if a < 0xF5 then
      match r with
      | b :: r2 =>
        if isSecond a b then
          match r2 with
          | c :: r3 =>
            if isTail c then
              match r3 with
              | d :: r4 =>
                if isTail d then some (char4 a b c d) :: pieces r4 else none :: pieces (d :: r4)
              | [] => [none]
            else none :: pieces (c :: r3)
          | [] => [none]
        else none :: pieces (b :: r2)
      | [] => [none]
    else none :: pieces r

def decode? (b : Bytes) : Option (List Char) := (pieces b).mapM id

/-- Every ill-formed stretch becomes one replacement character. -/
def decodeLossy (b : Bytes) : List Char := (pieces b).map (·.getD '\ufffd')

/-- How many bytes stand before the first ill-formed stretch. -/
def validLength (b : Bytes) : Nat :=
  ((pieces b).takeWhile Option.isSome).foldl (fun n c => n + (c.getD '\ufffd').utf8Size) 0

end Utf8

namespace Text

def bytes (s : String) : Bytes := Utf8.encode s.toList

def ofBytes? (b : Bytes) : Option String := (Utf8.decode? b).map String.ofList

def ofBytesLossy (b : Bytes) : String := String.ofList (Utf8.decodeLossy b)

end Text

end IdentityTokens
