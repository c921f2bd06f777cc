import IdentityTokens.Octets

/-! Lenient reading of distinguished encodings into blocks, as far as it takes to
find an algorithm and a key in a certificate. Texts, times and lengths are still
held to their form. -/
namespace IdentityTokens.Asn1

inductive Block where
  | sequence (items : List Block)
  | objectId (arcs : List Nat)
  | bits (content : Bytes)
  | octets (content : Bytes)
  | other

namespace Block

/-- Seven bits a byte; the last one has its high bit clear. -/
def base128 (n : Nat) : Bytes → Option (Nat × Bytes)
  | [] => none
  | b :: rest =>
    let n := n * 128 + b.toNat % 128
    if b < 0x80 then some (n, rest) else base128 n rest

def length : Bytes → Option (Nat × Bytes)
  | [] => none
  | b :: rest =>
    if b < 0x80 then some (b.toNat, rest)
    else
      let count := b.toNat - 0x80
      if 8 < count ∨ rest.length < count then none
      else some (Octets.toNat (rest.take count), rest.drop count)

/-- The arcs after the first two. The fuel bounds their number. -/
def arcs : Nat → Bytes → Option (List Nat)
  | 0, _ => some []
  | fuel + 1, b =>
    if b.isEmpty then some []
    else do
      let (n, rest) ← base128 0 b
      let more ← arcs fuel rest
      some (n :: more)

def objectId? : Bytes → Option (List Nat)
  | [] => none
  | b :: rest =>
    let first := min (b.toNat / 40) 2
    (arcs rest.length rest).map fun more => first :: (b.toNat - first * 40) :: more

def isPrintable (b : UInt8) : Bool :=
  ('a'.toUInt8 ≤ b && b ≤ 'z'.toUInt8) || ('A'.toUInt8 ≤ b && b ≤ 'Z'.toUInt8) ||
    ('0'.toUInt8 ≤ b && b ≤ '9'.toUInt8) || (" '()+,-./:=?".toList.map Char.toUInt8).contains b

def two? : List UInt8 → Option (Nat × List UInt8)
  | a :: b :: rest =>
    if '0'.toUInt8 ≤ a ∧ a ≤ '9'.toUInt8 ∧ '0'.toUInt8 ≤ b ∧ b ≤ '9'.toUInt8 then
      some ((a - '0'.toUInt8).toNat * 10 + (b - '0'.toUInt8).toNat, rest)
    else none
  | _ => none

def daysIn (year month : Nat) : Nat :=
  if month = 2 then
    if year % 4 = 0 ∧ (year % 100 ≠ 0 ∨ year % 400 = 0) then 29 else 28
  else if month = 4 ∨ month = 6 ∨ month = 9 ∨ month = 11 then 30
  else 31

/-- What stands behind month, day, hour, minute and second of a year. -/
def dateTime? (year : Nat) (b : Bytes) : Option Bytes := do
  let (month, b) ← two? b
  let (day, b) ← two? b
  let (hour, b) ← two? b
  let (minute, b) ← two? b
  let (second, b) ← two? b
  if 1 ≤ month ∧ month ≤ 12 ∧ 1 ≤ day ∧ day ≤ daysIn year month ∧ hour < 24 ∧ minute < 60 ∧
      second < 60 then some b
  else none

def zulu : UInt8 := 'Z'.toUInt8

/-- A year of two digits belongs to the hundred years from 1950. -/
def isShortTime (b : Bytes) : Bool :=
  ((two? b).bind fun (year, b) =>
    dateTime? (if 50 ≤ year then 1900 + year else 2000 + year) b) == some [zulu]

def isLongTime (b : Bytes) : Bool :=
  let rest := do
    let (century, b) ← two? b
    let (year, b) ← two? b
    dateTime? (century * 100 + year) b
  match rest with
  | none => false
  | some rest =>
    let rest := if rest.head? = some '.'.toUInt8 then rest.tail else rest
    rest.dropWhile (fun b => '0'.toUInt8 ≤ b && b ≤ '9'.toUInt8) == [zulu]

/-- The block of a universal tag, given how to read blocks inside. -/
def universal (inside : Bytes → Option (List Block)) (number : Nat) (body : Bytes) :
    Option Block :=
  let when (b : Bool) : Option Block := if b then some other else none
  match number with
  | 0x01 => when (body.length == 1)
  | 0x03 =>
    match body with
    | [] => some (bits [])
    | unused :: content => if unused.toNat ≤ content.length * 8 then some (bits content) else none
  | 0x04 => some (octets body)
  | 0x06 => (objectId? body).map objectId
  | 0x0C | 0x14 | 0x1C | 0x1E => when (Utf8.decode? body).isSome
  | 0x10 => (inside body).map sequence
  | 0x11 => (inside body).map fun _ => other
  | 0x13 => when (body.all isPrintable)
  | 0x16 => when (body.all (· < 0x80))
  | 0x17 => when (isShortTime body)
  | 0x18 => when (isLongTime body)
  | _ => some other

/-- The blocks that fill some bytes; there must be one. The fuel bounds both how
deep they are nested and how many there are. -/
def blocks : Nat → Bytes → Option (List Block)
  | 0, _ => none
  | _ + 1, [] => none
  | fuel + 1, t :: rest => do
    let (number, rest) ← if t.toNat % 32 = 31 then base128 0 rest else some (t.toNat % 32, rest)
    let (n, rest) ← length rest
    if rest.length < n then none
    else
      let body := rest.take n
      let rest := rest.drop n
      let block ← if t < 0x40 then universal (blocks fuel) number body else some other
      if rest.isEmpty then some [block]
      else
        let more ← blocks fuel rest
        some (block :: more)

def ofBytes? (b : Bytes) : Option (List Block) := blocks (b.length + 1) b

mutual
/-- The object identifiers in sequences, in order. -/
def objectIds : Block → List (List Nat)
  | .sequence items => objectIdsIn items
  | .objectId arcs => [arcs]
  | _ => []

def objectIdsIn : List Block → List (List Nat)
  | [] => []
  | b :: rest => objectIds b ++ objectIdsIn rest
end

mutual
/-- The strings of bits and octets in sequences, in order. -/
def strings : Block → List Bytes
  | .sequence items => stringsIn items
  | .bits content => [content]
  | .octets content => [content]
  | _ => []

def stringsIn : List Block → List Bytes
  | [] => []
  | b :: rest => strings b ++ stringsIn rest
end

end Block

end IdentityTokens.Asn1
