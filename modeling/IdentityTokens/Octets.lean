import IdentityTokens.Text.Utf8

/-! Naturals as bytes, the most significant first. -/
namespace IdentityTokens.Octets

def toNat (b : Bytes) : Nat := b.foldl (fun n x => n * 256 + x.toNat) 0

/-- The `length` low bytes of a natural. -/
def ofNat : Nat → Nat → Bytes
  | 0, _ => []
  | length + 1, n => ofNat length (n / 256) ++ [UInt8.ofNat n]

/-- How many bytes a natural fills. -/
def size (n : Nat) : Nat := if n = 0 then 0 else n.log2 / 8 + 1

def bitSize (n : Nat) : Nat := if n = 0 then 0 else n.log2 + 1

theorem length_ofNat (length n : Nat) : (ofNat length n).length = length := by
  induction length generalizing n with
  | zero => rfl
  | succ length ih => simp [ofNat, ih]

end IdentityTokens.Octets
