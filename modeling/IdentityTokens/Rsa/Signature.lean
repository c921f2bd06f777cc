import IdentityTokens.Sha256

/-! RSA signatures over SHA-256 digests with the padding of PKCS #1 version 1.5.
A signature is one power of the padded digest modulo the key's modulus, and it
verifies if the public power takes it back. -/
namespace IdentityTokens.Rsa

structure PublicKey where
  modulus : Nat
  exponent : Nat
deriving DecidableEq, Repr

structure PrivateKey where
  publicKey : PublicKey
  exponent : Nat
deriving DecidableEq, Repr

/-- The power `base ^ exponent % modulus` by squaring; the fuel bounds the exponent's
bits. -/
def powModWithin (modulus : Nat) : Nat → Nat → Nat → Nat
  | 0, _, _ => 1 % modulus
  | fuel + 1, base, exponent =>
    if exponent = 0 then 1 % modulus
    else
      let half := powModWithin modulus fuel (base * base % modulus) (exponent / 2)
      if exponent % 2 = 1 then half * base % modulus else half

def powMod (modulus base exponent : Nat) : Nat :=
  powModWithin modulus (exponent.log2 + 1) base exponent

/-- What says, in front of a digest, that SHA-256 made it. -/
def digestLabel : Bytes :=
  [0x30, 0x31, 0x30, 0x0d, 0x06, 0x09, 0x60, 0x86, 0x48, 0x01, 0x65, 0x03, 0x04, 0x02, 0x01, 0x05,
    0x00, 0x04, 0x20]

/-- The padded digest of a message in `size` bytes, if it fits. -/
def padded? (size : Nat) (message : Bytes) : Option Bytes :=
  let digest := digestLabel ++ Sha256.digest message
  if size < digest.length + 11 then none
  else some (0 :: 1 :: List.replicate (size - digest.length - 3) 0xff ++ 0 :: digest)

namespace PublicKey

def size (k : PublicKey) : Nat := Octets.size k.modulus

/-- Shorter and longer keys verify nothing. -/
def minBits : Nat := 2048
def maxBits : Nat := 8192

def verifies (k : PublicKey) (message signature : Bytes) : Bool :=
  minBits ≤ Octets.bitSize k.modulus && Octets.bitSize k.modulus ≤ maxBits &&
    signature.length == k.size && Octets.toNat signature < k.modulus &&
    padded? k.size message ==
      some (Octets.ofNat k.size (powMod k.modulus (Octets.toNat signature) k.exponent))

end PublicKey

/-- The signature of a message, unless the modulus is too short for a digest. -/
def PrivateKey.sign? (k : PrivateKey) (message : Bytes) : Option Bytes :=
  (padded? k.publicKey.size message).map fun m =>
    Octets.ofNat k.publicKey.size (powMod k.publicKey.modulus (Octets.toNat m) k.exponent)

end IdentityTokens.Rsa
