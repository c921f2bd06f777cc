import IdentityTokens.Text.Utf8

/-! Percent encoding in addresses: a byte as `%` and two hexadecimal digits. What
is encoded already stays as it is. -/
namespace IdentityTokens.Percent

def upperDigit (n : Nat) : Char := if n < 10 then Char.ofNat (n + 48) else Char.ofNat (n + 55)

def encodeByte (b : UInt8) : List Char :=
  ['%', upperDigit (b.toNat / 16), upperDigit (b.toNat % 16)]

/-- Printable ASCII with the blank. -/
def isPrintable (c : Char) : Bool := ' ' ≤ c && c ≤ '~'

/-- Printable ASCII other than a blank and the characters of `marks`. -/
def isPlain (marks : List Char) (c : Char) : Bool :=
  isPrintable c && c != ' ' && !marks.contains c

/-- Encodes all characters but those that stay. -/
def encode (stays : Char → Bool) (s : List Char) : List Char :=
  s.flatMap fun c => if stays c then [c] else (String.utf8EncodeChar c).flatMap encodeByte

def digit? (c : Char) : Option Nat :=
  if '0' ≤ c && c ≤ '9' then some (c.toNat - 48)
  else if 'A' ≤ c && c ≤ 'F' then some (c.toNat - 55)
  else if 'a' ≤ c && c ≤ 'f' then some (c.toNat - 87)
  else none

/-- A `%` without two digits behind it stands for itself. -/
def decode : List Char → Bytes
  | [] => []
  | [c] => String.utf8EncodeChar c
  | [c, d] => String.utf8EncodeChar c ++ String.utf8EncodeChar d
  | c :: d :: e :: rest =>
    match (if c = '%' then digit? d else none), digit? e with
    | some d, some e => UInt8.ofNat (d * 16 + e) :: decode rest
    | _, _ => String.utf8EncodeChar c ++ decode (d :: e :: rest)

end IdentityTokens.Percent
