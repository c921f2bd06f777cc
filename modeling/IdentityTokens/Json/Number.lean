import IdentityTokens.Json.Fault

/-! Numbers. Digits are taken into the significand as long as it fits in
64 bits; later ones before the point only move the point, later ones behind it
are dropped. -/
namespace IdentityTokens.Json

/-- What was read, and the bytes behind it. -/
abbrev Got (α : Type) := α × Bytes

inductive Number where
  | whole (n : Whole)
  | double (d : Double)

def Number.toJson : Number → Json
  | .whole n => .whole n
  | .double d => .double d

def Number.found : Number → Found
  | .whole n => .integer n.value
  | .double d => .double d

def digit? (b : UInt8) : Option Nat :=
  if '0'.toUInt8 ≤ b ∧ b ≤ '9'.toUInt8 then some (b - '0'.toUInt8).toNat else none

def isDigit (b : UInt8) : Bool := (digit? b).isSome

def isExponentMark (b : UInt8) : Bool := b == 'e'.toUInt8 || b == 'E'.toUInt8

/-- Whether the rest goes on with a digit, a mark and so on. -/
def goesOn (p : UInt8 → Bool) : Bytes → Bool
  | [] => false
  | b :: _ => p b

/-- What stands behind the sign of an exponent, if it has one. -/
def behindSign (rest : Bytes) : Bytes :=
  if goesOn (fun b => b == '-'.toUInt8 || b == '+'.toUInt8) rest then rest.tail else rest

namespace Number

def significandLimit : Nat := UInt64.size
def exponentLimit : Nat := Nat.pow 2 31

/-- Takes digits while the value stays below the limit. Gives the value, how many
digits went in, and the rest, which goes on with a digit only if that one did not fit. -/
def take (limit : Nat) (value count : Nat) : Bytes → Nat × Nat × Bytes
  | [] => (value, count, [])
  | b :: rest =>
    match digit? b with
    | none => (value, count, b :: rest)
    | some d =>
      if value * 10 + d < limit then take limit (value * 10 + d) (count + 1) rest
      else (value, count, b :: rest)

def scaled (negative : Bool) (significand : Nat) (exponent : Int) (rest : Bytes) :
    Except Fault (Got Number) :=
  match Double.ofDecimal negative significand exponent with
  | some d => .ok (.double d, rest)
  | none => .error (here .numberOutOfRange rest)

/-- Behind an exponent mark. -/
def exponentPart (negative : Bool) (significand : Nat) (exponent : Int) (rest : Bytes) :
    Except Fault (Got Number) :=
  let up := !goesOn (· == '-'.toUInt8) rest
  let rest := behindSign rest
  match rest with
  | [] => .error (here .endOfValue [])
  | b :: r =>
    if isDigit b then
      match take exponentLimit 0 0 (b :: r) with
      | (e, _, r) =>
        if goesOn isDigit r then
          if significand ≠ 0 ∧ up then .error (here .numberOutOfRange r.tail)
          else .ok (.double ⟨negative, 0, Double.minExponent⟩, r.dropWhile isDigit)
        else scaled negative significand (if up then exponent + e else exponent - e) r
    else .error (here .invalidNumber r)

/-- Behind the digits: an exponent or the end. -/
def afterDigits (negative : Bool) (significand : Nat) (exponent : Int) (rest : Bytes) :
    Except Fault (Got Number) :=
  if goesOn isExponentMark rest then exponentPart negative significand exponent rest.tail
  else scaled negative significand exponent rest

/-- Behind the point. -/
def fractionPart (negative : Bool) (significand : Nat) (exponent : Int) (rest : Bytes) :
    Except Fault (Got Number) :=
  match take significandLimit significand 0 rest with
  | (significand, count, r) =>
    if goesOn isDigit r then
      afterDigits negative significand (exponent - count) (r.dropWhile isDigit)
    else if count = 0 then
      .error (ahead (if r.isEmpty then .endOfValue else .invalidNumber) r)
    else afterDigits negative significand (exponent - count) r

/-- A significand without fraction and exponent: exact if it fits. -/
def plain (negative : Bool) (significand : Nat) (rest : Bytes) : Except Fault (Got Number) :=
  if negative then
    if significand = 0 then scaled true 0 0 rest
    else
      match Whole.ofInt? (-(significand : Int)) with
      | some n => .ok (.whole n, rest)
      | none => scaled true significand 0 rest
  else
    match Whole.ofInt? significand with
    | some n => .ok (.whole n, rest)
    | none => scaled false significand 0 rest

def afterInteger (negative : Bool) (significand : Nat) (rest : Bytes) : Except Fault (Got Number) :=
  if goesOn (· == '.'.toUInt8) rest then fractionPart negative significand 0 rest.tail
  else if goesOn isExponentMark rest then exponentPart negative significand 0 rest.tail
  else plain negative significand rest

/-- Reads a number whose minus sign, if any, has been taken. -/
def read (negative : Bool) : Bytes → Except Fault (Got Number)
  | [] => .error (here .endOfValue [])
  | b :: rest =>
    match digit? b with
    | none => .error (here .invalidNumber rest)
    | some 0 =>
      if goesOn isDigit rest then .error (ahead .invalidNumber rest)
      else afterInteger negative 0 rest
    | some (d + 1) =>
      match take significandLimit (d + 1) 0 rest with
      | (significand, _, r) =>
        if goesOn isDigit r then
          let dropped := (r.takeWhile isDigit).length
          let r := r.dropWhile isDigit
          if goesOn (· == '.'.toUInt8) r then fractionPart negative significand dropped r.tail
          else afterDigits negative significand dropped r
        else afterInteger negative significand r

/-- Passes over a number whose minus sign, if any, has been taken. -/
def skipExponent (rest : Bytes) : Except Fault Bytes :=
  let rest := behindSign rest
  if goesOn isDigit rest then .ok (rest.dropWhile isDigit)
  else .error (here .invalidNumber rest.tail)

def skipAfterDigits (rest : Bytes) : Except Fault Bytes :=
  if goesOn isExponentMark rest then skipExponent rest.tail else .ok rest

def skip : Bytes → Except Fault Bytes
  | [] => .error (here .invalidNumber [])
  | b :: rest =>
    if isDigit b then
      if b == '0'.toUInt8 && goesOn isDigit rest then .error (ahead .invalidNumber rest)
      else
        let rest := rest.dropWhile isDigit
        if goesOn (· == '.'.toUInt8) rest then
          let rest := rest.tail
          if goesOn isDigit rest then skipAfterDigits (rest.dropWhile isDigit)
          else .error (ahead .invalidNumber rest)
        else skipAfterDigits rest
    else .error (here .invalidNumber rest)

end Number

end IdentityTokens.Json
