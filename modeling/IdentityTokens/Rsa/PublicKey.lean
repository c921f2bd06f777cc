import IdentityTokens.Asn1.Block
import IdentityTokens.Pem.Armor
import IdentityTokens.Rsa.PrivateKey

/-! Public keys out of certificates and other armored documents. Where the key
stands is found leniently; that it is a key is checked when it is used. -/
namespace IdentityTokens.Rsa

/-- Why no key can be found. -/
inductive CertificateFault where
  | invalidKeyFormat
  | noKeyBytes
  | otherAlgorithm
deriving DecidableEq, Repr

/-- The algorithms that a document may name. -/
inductive Algorithm where
  | rsa
  | other
deriving DecidableEq, Repr

namespace Algorithm

def ofObjectId? (arcs : List Nat) : Option Algorithm :=
  if arcs = [1, 2, 840, 113549, 1, 1, 1] then some .rsa
  else if arcs = [1, 2, 840, 10045, 2, 1] ∨ arcs = [1, 3, 101, 112] then some .other
  else none

end Algorithm

/-- The bytes of the key in an armored document. -/
def keyBytes (pem : Bytes) : Except CertificateFault Bytes :=
  match Pem.Armor.ofBytes? pem with
  | none => .error .invalidKeyFormat
  | some armor =>
    match Asn1.Block.ofBytes? armor.content with
    | none => .error .invalidKeyFormat
    | some blocks =>
      if armor.label = "RSA PRIVATE KEY" ∨ armor.label = "RSA PUBLIC KEY" then .ok armor.content
      else if armor.label = "PRIVATE KEY" ∨ armor.label = "PUBLIC KEY" ∨
          armor.label = "CERTIFICATE" then
        let strings := Asn1.Block.stringsIn blocks
        match (Asn1.Block.objectIdsIn blocks).findSome? Algorithm.ofObjectId? with
        | none => .error .invalidKeyFormat
        | some .other =>
          if armor.label ≠ "PRIVATE KEY" ∧ !strings.isEmpty then .error .otherAlgorithm
          else .error .invalidKeyFormat
        | some .rsa =>
          match strings with
          | [] => .error .noKeyBytes
          | key :: _ => .ok key
      else .error .invalidKeyFormat

namespace PublicKey

open Asn1

def maxExponentBits : Nat := 33

/-- A modulus and an exponent in one sequence. -/
def bare? (b : Bytes) : Option PublicKey := do
  let k ← (Asn1.document (Asn1.sequence fun c => do
    let (modulus, c) ← natural c
    let (exponent, c) ← natural c
    .ok (⟨modulus, exponent⟩, c)) b).toOption
  if k.modulus % 2 = 1 ∧ k.exponent % 2 = 1 ∧ 3 ≤ k.exponent ∧
      Octets.bitSize k.exponent ≤ maxExponentBits then some k
  else none

/-- The same in a wrapping that names the algorithm. -/
def wrapped? (b : Bytes) : Option PublicKey := do
  let (isRsa, bits) ← (Asn1.document (Asn1.sequence fun c => do
    let (isRsa, c) ← algorithm c
    let (bits, c) ← content Tag.bitString c
    .ok ((isRsa, bits), c)) b).toOption
  if isRsa then
    match bits with
    | 0 :: key => bare? key
    | _ => none
  else none

def ofBytes? (b : Bytes) : Option PublicKey := (bare? b).orElse fun _ => wrapped? b

end PublicKey

end IdentityTokens.Rsa
