import IdentityTokens.Text.Utf8

/-! Base 64 in two variants: the one of URLs without padding, and the standard
one with padding. Reading accepts only what writing produces; what else can be
wrong is told apart and placed. -/
namespace IdentityTokens.Base64

/-- The last two symbols of the alphabet, and whether `=` fills the last group. -/
structure Variant where
  symbol62 : Char
  symbol63 : Char
  padded : Bool

def url : Variant := ⟨'-', '_', false⟩
def standard : Variant := ⟨'+', '/', true⟩

inductive Fault where
  | invalidSymbol (offset : Nat) (symbol : UInt8)
  | invalidLength (length : Nat)
  | invalidLastSymbol (offset : Nat) (symbol : UInt8)
  | invalidPadding
deriving DecidableEq, Repr

def Fault.message : Fault → String
  | .invalidSymbol offset symbol =>
    let n := symbol.toNat
    s!"Invalid symbol {n}, offset {offset}."
  | .invalidLength length => s!"Invalid input length: {length}"
  | .invalidLastSymbol offset symbol =>
    let n := symbol.toNat
    s!"Invalid last symbol {n}, offset {offset}."
  | .invalidPadding => "Invalid padding"

namespace Variant

def symbol (v : Variant) (n : Nat) : Char :=
  if n < 26 then Char.ofNat ('A'.toNat + n)
  else if n < 52 then Char.ofNat ('a'.toNat + (n - 26))
  else if n < 62 then Char.ofNat ('0'.toNat + (n - 52))
  else if n = 62 then v.symbol62
  else v.symbol63

def sextet? (v : Variant) (b : UInt8) : Option Nat :=
  if 'A'.toUInt8 ≤ b ∧ b ≤ 'Z'.toUInt8 then some (b.toNat - 'A'.toNat)
  else if 'a'.toUInt8 ≤ b ∧ b ≤ 'z'.toUInt8 then some (b.toNat - 'a'.toNat + 26)
  else if '0'.toUInt8 ≤ b ∧ b ≤ '9'.toUInt8 then some (b.toNat - '0'.toNat + 52)
  else if b = v.symbol62.toUInt8 then some 62
  else if b = v.symbol63.toUInt8 then some 63
  else none

end Variant

def pad : UInt8 := '='.toUInt8

def padding (v : Variant) (n : Nat) : List Char := if v.padded then List.replicate n '=' else []

def encode (v : Variant) : Bytes → List Char
  | [] => []
  | [a] =>
    [v.symbol (a.toNat / 4), v.symbol (a.toNat % 4 * 16)] ++ padding v 2
  | [a, b] =>
    [v.symbol (a.toNat / 4), v.symbol (a.toNat % 4 * 16 + b.toNat / 16),
      v.symbol (b.toNat % 16 * 4)] ++ padding v 1
  | a :: b :: c :: rest =>
    v.symbol (a.toNat / 4) :: v.symbol (a.toNat % 4 * 16 + b.toNat / 16) ::
      v.symbol (b.toNat % 16 * 4 + c.toNat / 64) :: v.symbol (c.toNat % 64) :: encode v rest

def encodeText (v : Variant) (b : Bytes) : String := String.ofList (encode v b)

def sextet (v : Variant) (offset : Nat) (b : UInt8) : Except Fault Nat :=
  match v.sextet? b with
  | some n => .ok n
  | none => .error (.invalidSymbol offset b)

def byte1 (a b : Nat) : UInt8 := UInt8.ofNat (a * 4 + b / 16)
def byte2 (b c : Nat) : UInt8 := UInt8.ofNat (b % 16 * 16 + c / 4)
def byte3 (c d : Nat) : UInt8 := UInt8.ofNat (c % 4 * 64 + d)

/-- The sextets of the last group with the number of pads behind them; `index`
counts from the start of the group. -/
def lastSextets (v : Variant) (offset : Nat) : Nat → Bytes → Except Fault (List Nat × Nat)
  | _, [] => .ok ([], 0)
  | index, b :: rest =>
    if b = pad then
      if index < 2 then .error (.invalidSymbol (offset + index) b)
      else if rest.all (· == pad) then .ok ([], rest.length + 1)
      else .error (.invalidSymbol (offset + index) pad)
    else do
      let n ← sextet v (offset + index) b
      let (more, pads) ← lastSextets v offset (index + 1) rest
      .ok (n :: more, pads)

/-- The last group: two to four symbols, or none at all. -/
def decodeLast (v : Variant) (offset : Nat) (group : Bytes) : Except Fault Bytes := do
  let (sextets, pads) ← lastSextets v offset 0 group
  let lastSymbol := (group.drop (sextets.length - 1)).headD 0
  if !group.isEmpty && sextets.length < 2 then .error (.invalidLength (offset + sextets.length))
  else if (if v.padded then (pads + sextets.length) % 4 != 0 else pads != 0) then
    .error .invalidPadding
  else
    match sextets with
    | [a, b] =>
      if b % 16 = 0 then .ok [byte1 a b]
      else .error (.invalidLastSymbol (offset + 1) lastSymbol)
    | [a, b, c] =>
      if c % 4 = 0 then .ok [byte1 a b, byte2 b c]
      else .error (.invalidLastSymbol (offset + 2) lastSymbol)
    | [a, b, c, d] => .ok [byte1 a b, byte2 b c, byte3 c d]
    | _ => .ok []

def decodeFrom (v : Variant) (offset : Nat) : Bytes → Except Fault Bytes
  | a :: b :: c :: d :: e :: rest => do
    let a ← sextet v offset a
    let b ← sextet v (offset + 1) b
    let c ← sextet v (offset + 2) c
    let d ← sextet v (offset + 3) d
    let more ← decodeFrom v (offset + 4) (e :: rest)
    .ok (byte1 a b :: byte2 b c :: byte3 c d :: more)
  | group => decodeLast v offset group

/-- A single byte too many is named if it is no symbol, before all else. -/
def strayLast? (v : Variant) (s : Bytes) : Option Fault :=
  match s.getLast? with
  | some b =>
    if s.length % 4 = 1 ∧ b ≠ pad ∧ v.sextet? b = none then
      some (.invalidSymbol (s.length - 1) b)
    else none
  | none => none

def decode (v : Variant) (s : Bytes) : Except Fault Bytes :=
  match strayLast? v s with
  | some f => .error f
  | none => decodeFrom v 0 s

def decodeText (v : Variant) (s : String) : Except Fault Bytes := decode v (Text.bytes s)

end IdentityTokens.Base64
