import IdentityTokens.Octets
import Mathlib.Data.List.Induction
import Mathlib.Tactic.Ring

/-! # Naturals as bytes, there and back

Bytes count as digits to base 256. A natural comes back from its low bytes if it has no more, and
bytes come back from the natural that they count as. -/
namespace IdentityTokens.Octets

/-- What stands in front counts as much as all that comes behind it. -/
theorem foldl_eq (n : Nat) (b : Bytes) :
    b.foldl (fun n x => n * 256 + x.toNat) n = n * 256 ^ b.length + toNat b := by
  induction b generalizing n with
  | nil => simp [toNat]
  | cons x b ih =>
    have hb : toNat (x :: b) = x.toNat * 256 ^ b.length + toNat b := by
      rw [toNat, List.foldl_cons, ih]
      ring
    rw [List.foldl_cons, ih, hb, List.length_cons, Nat.pow_succ]
    ring

theorem toNat_append (a b : Bytes) : toNat (a ++ b) = toNat a * 256 ^ b.length + toNat b := by
  rw [toNat, List.foldl_append, foldl_eq]
  rfl

theorem toNat_singleton (x : UInt8) : toNat [x] = x.toNat := by
  rw [toNat, List.foldl_cons, List.foldl_nil, Nat.zero_mul, Nat.zero_add]

theorem toNat_cons (x : UInt8) (b : Bytes) :
    toNat (x :: b) = x.toNat * 256 ^ b.length + toNat b := by
  have happend := toNat_append [x] b
  rwa [toNat_singleton] at happend

theorem toNat_lt (b : Bytes) : toNat b < 256 ^ b.length := by
  induction b with
  | nil => exact Nat.one_pos
  | cons x b ih =>
    have hx : x.toNat + 1 ≤ 256 := x.toNat_lt
    calc toNat (x :: b) = x.toNat * 256 ^ b.length + toNat b := toNat_cons x b
      _ < (x.toNat + 1) * 256 ^ b.length := by rw [Nat.succ_mul]; omega
      _ ≤ 256 * 256 ^ b.length := Nat.mul_le_mul_right _ hx
      _ = 256 ^ (x :: b).length := by rw [List.length_cons, Nat.pow_succ, Nat.mul_comm]

theorem toNat_ofNat (length n : Nat) : toNat (ofNat length n) = n % 256 ^ length := by
  induction length generalizing n with
  | zero => rw [Nat.pow_zero, Nat.mod_one]; rfl
  | succ length ih =>
    have hlow : (UInt8.ofNat n).toNat = n % 256 := UInt8.toNat_ofNat'
    rw [ofNat, toNat_append, ih, toNat_singleton, hlow, List.length_singleton, Nat.pow_one,
      Nat.pow_succ, Nat.mul_comm (256 ^ length), Nat.mod_mul]
    ring

theorem toNat_ofNat_of_lt {length n : Nat} (h : n < 256 ^ length) : toNat (ofNat length n) = n := by
  rw [toNat_ofNat, Nat.mod_eq_of_lt h]

/-- The first byte is what the others have no room for. -/
theorem ofNat_succ (length n : Nat) :
    ofNat (length + 1) n = UInt8.ofNat (n / 256 ^ length) :: ofNat length n := by
  induction length generalizing n with
  | zero => rw [Nat.pow_zero, Nat.div_one]; rfl
  | succ length ih =>
    have hdiv : n / 256 / 256 ^ length = n / 256 ^ (length + 1) := by
      rw [Nat.div_div_eq_div_mul, Nat.pow_succ, Nat.mul_comm]
    rw [ofNat, ih, hdiv, List.cons_append]
    rfl

theorem ofNat_toNat (b : Bytes) : ofNat b.length (toNat b) = b := by
  induction b using List.reverseRecOn with
  | nil => rfl
  | append_singleton b x ih =>
    have hx := x.toNat_lt
    have hhigh : (toNat b * 256 + x.toNat) / 256 = toNat b := by omega
    have hlow : UInt8.ofNat (toNat b * 256 + x.toNat) = x := by
      apply UInt8.toNat_inj.mp
      rw [UInt8.toNat_ofNat']
      omega
    rw [toNat_append, toNat_singleton, List.length_append, List.length_singleton, Nat.pow_one,
      ofNat, hhigh, hlow, ih]

/-! ## How many bytes there are -/

variable {n : Nat}

theorem lt_two_pow_bitSize (n : Nat) : n < 2 ^ bitSize n := by
  rw [bitSize]
  split
  · rename_i h
    rw [h]
    exact Nat.one_pos
  · rename_i h
    exact (Nat.log2_lt h).mp (Nat.lt_succ_self _)

theorem two_pow_le (h : n ≠ 0) : 2 ^ (bitSize n - 1) ≤ n := by
  rw [bitSize, if_neg h]
  exact Nat.log2_self_le h

theorem bitSize_le_iff {k : Nat} : bitSize n ≤ k ↔ n < 2 ^ k := by
  constructor
  · intro h
    exact Nat.lt_of_lt_of_le (lt_two_pow_bitSize n) (Nat.pow_le_pow_right (by decide) h)
  · intro h
    rw [bitSize]
    split
    · exact Nat.zero_le k
    · rename_i hn
      exact (Nat.log2_lt hn).mpr h

theorem bitSize_le_of_le {m k : Nat} (h : m ≤ n) (hn : bitSize n ≤ k) : bitSize m ≤ k :=
  bitSize_le_iff.mpr (Nat.lt_of_le_of_lt h (bitSize_le_iff.mp hn))

/-- A byte has eight bits. -/
theorem size_eq (n : Nat) : size n = (bitSize n + 7) / 8 := by
  unfold size bitSize
  split <;> omega

theorem lt_pow_size (n : Nat) : n < 256 ^ size n := by
  have h256 : (256 : Nat) = 2 ^ 8 := rfl
  rw [h256, ← Nat.pow_mul]
  refine Nat.lt_of_lt_of_le (lt_two_pow_bitSize n) (Nat.pow_le_pow_right (by decide) ?_)
  rw [size_eq]
  omega

theorem toNat_ofNat_size (n : Nat) : toNat (ofNat (size n) n) = n :=
  toNat_ofNat_of_lt (lt_pow_size n)

/-- The first byte is not idle. -/
theorem pow_le (h : n ≠ 0) : 256 ^ (size n - 1) ≤ n := by
  have h256 : (256 : Nat) = 2 ^ 8 := rfl
  rw [h256, ← Nat.pow_mul]
  refine Nat.le_trans (Nat.pow_le_pow_right (by decide) ?_) (Nat.log2_self_le h)
  rw [size, if_neg h]
  omega

theorem half_pow (k : Nat) : 128 * 256 ^ k = 2 ^ (7 + 8 * k) := by
  rw [Nat.pow_add, Nat.pow_mul]

/-- One byte more than the bits fill leaves the first bit clear. -/
theorem lt_half_pow (n : Nat) : n < 128 * 256 ^ (bitSize n / 8) := by
  rw [half_pow]
  exact Nat.lt_of_lt_of_le (lt_two_pow_bitSize n) (Nat.pow_le_pow_right (by decide) (by omega))

/-- One byte less leaves it set, or leaves something out. -/
theorem half_pow_le {k : Nat} (h : bitSize n / 8 = k + 1) : 128 * 256 ^ k ≤ n := by
  have hn : n ≠ 0 := by
    rintro rfl
    cases h
  rw [half_pow]
  exact Nat.le_trans (Nat.pow_le_pow_right (by decide) (by omega)) (two_pow_le hn)

end IdentityTokens.Octets
