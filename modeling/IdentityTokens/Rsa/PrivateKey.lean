import IdentityTokens.Asn1.Reader
import IdentityTokens.Pem.Strict
import IdentityTokens.Rsa.Signature

/-! Private keys as documents: a key of its own under one label, or one wrapped
with the name of its algorithm under another. A key is accepted only if its
parts fit together. -/
namespace IdentityTokens.Rsa

open Asn1

/-- Why a key without a wrapping cannot be used. -/
inductive KeyFault where
  | pem (fault : Pem.Fault)
  | document (fault : Asn1.Fault)
  | content (fault : Asn1.Fault)
  | malformed

def KeyFault.message : KeyFault → String
  | .pem fault => "PKCS#1 ASN.1 error: PEM error: " ++ fault.message
  | .document fault => "PKCS#1 ASN.1 error: " ++ fault.message
  | .content fault => "PKCS#8 ASN.1 error: " ++ fault.message
  | .malformed => "PKCS#8 cryptographic key data malformed"

/-- The parts of a key with two primes, as they are written. -/
structure Components where
  modulus : Nat
  publicExponent : Nat
  privateExponent : Nat
  prime1 : Nat
  prime2 : Nat
  hasMorePrimes : Bool
deriving DecidableEq, Repr

namespace Components

def otherPrime (c : Cursor) : Except Fault (Got Unit) :=
  Asn1.sequence (fun c => do
    let (_, c) ← field natural c
    let (_, c) ← field natural c
    let (_, c) ← field natural c
    .ok ((), c)) c

def otherPrimes (c : Cursor) : Except Fault (Got Bool) := do
  match ← peekTag c with
  | none => .ok (false, c)
  | some t =>
    if t = Tag.sequence then do
      let (_, c) ← Asn1.sequence (fun c => many otherPrime c.remaining c) c
      .ok (true, c)
    else .ok (false, c)

/-- Version 0 has two primes, version 1 has more. -/
def version (c : Cursor) : Except Fault (Got Nat) := do
  let (v, c) ← smallNatural c
  if v ≤ 1 then .ok (v, c) else .error (c.fault (.badValue Tag.integer))

def read (c : Cursor) : Except Fault (Got Components) :=
  Asn1.sequence (fun c => do
    let (v, c) ← version c
    let (modulus, c) ← field natural c
    let (publicExponent, c) ← field natural c
    let (privateExponent, c) ← field natural c
    let (prime1, c) ← field natural c
    let (prime2, c) ← field natural c
    let (_, c) ← field natural c
    let (_, c) ← field natural c
    let (_, c) ← field natural c
    let (more, c) ← field otherPrimes c
    if (v == 1) != more then .error (c.faultAt (.badValue Tag.integer) c.offset)
    else .ok (⟨modulus, publicExponent, privateExponent, prime1, prime2, more⟩, c)) c

def maxModulusBits : Nat := 4096
def maxPublicExponent : Nat := Nat.pow 2 33 - 1

/-- The exponents undo one another modulo a prime. -/
def invertsModulo (k : Components) (prime : Nat) : Bool :=
  1 ≤ prime && k.privateExponent * k.publicExponent % (prime - 1) == 1

def areConsistent (k : Components) : Bool :=
  !k.hasMorePrimes && Octets.bitSize k.modulus ≤ maxModulusBits &&
    k.modulus % 2 == 1 && k.publicExponent % 2 == 1 && 2 ≤ k.publicExponent &&
    k.publicExponent ≤ maxPublicExponent && k.publicExponent < k.modulus &&
    k.prime1 * k.prime2 == k.modulus && k.invertsModulo k.prime1 && k.invertsModulo k.prime2

def key? (k : Components) : Option PrivateKey :=
  if k.areConsistent then some ⟨⟨k.modulus, k.publicExponent⟩, k.privateExponent⟩ else none

end Components

/-- The object identifier of RSA keys. -/
def algorithmId : Bytes := [0x2A, 0x86, 0x48, 0x86, 0xF7, 0x0D, 0x01, 0x01, 0x01]

/-- The name of the algorithm and its parameters, which are null. -/
def algorithm (c : Cursor) : Except Fault (Got Bool) :=
  Asn1.sequence (fun c => do
    let (id, c) ← content Tag.objectId c
    let (parameters, c) ← any c
    .ok (id == algorithmId && parameters == (Tag.null, []), c)) c

namespace PrivateKey

def ofComponents (b : Bytes) : Except KeyFault PrivateKey :=
  match Asn1.document Components.read b with
  | .error f => .error (.content f)
  | .ok k =>
    match k.key? with
    | some key => .ok key
    | none => .error .malformed

/-- Passes over fields of the class up to the one with the number. -/
def contextField (number : Nat) : Nat → Cursor → Except Fault (Got (Option Bytes))
  | 0, c => .ok (none, c)
  | fuel + 1, c => do
    match ← peekTag c with
    | none => .ok (none, c)
    | some t =>
      if !Tag.isContextSpecific t || number < Tag.number t then .ok (none, c)
      else if Tag.number t = number then
        if Tag.isConstructed t then .error (c.fault (.notCanonical Tag.bitString))
        else do
          let ((_, b), c) ← any c
          .ok (some b, c)
      else do
        let (_, c) ← any c
        contextField number fuel c

def extraField (c : Cursor) : Except Fault (Got Unit) := do
  let ((t, n), c) ← header c
  if Tag.isContextSpecific t && Tag.isConstructed t then
    nested n (fun c => (any c).map fun (_, c) => ((), c)) c
  else .error (c.fault (.unexpectedTag none t))

/-- A bit string of whole bytes. -/
def isWholeBits (b : Bytes) : Bool := b.head? == some 0

/-- The key in a wrapping, and whether the wrapping is one for RSA. A public key is
there exactly in version 1. -/
def wrapped (c : Cursor) : Except Fault (Got (Bool × Bytes)) :=
  Asn1.sequence (fun c => do
    let (v, c) ← Components.version c
    let (isRsa, c) ← algorithm c
    let (key, c) ← content Tag.octetString c
    let (publicKey, c) ← contextField 1 c.remaining c
    if (v == 1) != publicKey.isSome || !(publicKey.all isWholeBits) then
      .error (c.fault (.badValue Tag.bitString))
    else
      let (_, c) ← many extraField c.remaining c
      .ok ((isRsa, key), c)) c

/-- A document whose content is one sequence. -/
def sequenceDocument (b : Bytes) : Except KeyFault Pem.Document := do
  let d ← (Pem.Document.ofBytes b).mapError .pem
  (oneSequence d.content).mapError .document
  .ok d

def ofWrapped? (b : Bytes) : Option PrivateKey := do
  let d ← (sequenceDocument b).toOption
  let content ← (d.expectLabel "PRIVATE KEY").toOption
  let (isRsa, key) ← (Asn1.document wrapped content).toOption
  if isRsa then (ofComponents key).toOption else none

def ofBare (b : Bytes) : Except KeyFault PrivateKey := do
  let d ← sequenceDocument b
  let content ← (d.expectLabel "RSA PRIVATE KEY").mapError .pem
  ofComponents content

/-- Reads a key in either form; the faults are those of the bare one. -/
def ofPem (b : Bytes) : Except KeyFault PrivateKey :=
  match ofWrapped? b with
  | some key => .ok key
  | none => ofBare b

end PrivateKey

end IdentityTokens.Rsa
