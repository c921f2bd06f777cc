/-! Finite binary floating-point numbers of 53 bits, as exact dyadic fractions.
`nearest` rounds a quotient of naturals to the nearest of them, ties to the even
mantissa; products, quotients and numbers read from decimals go through it. -/
namespace IdentityTokens

/-- The number `mantissa * 2 ^ exponent`, negated when `negative`. -/
structure Double where
  negative : Bool
  mantissa : Nat
  exponent : Int
deriving DecidableEq, Repr

namespace Double

def minExponent : Int := -1074
def maxExponent : Int := 971

/-- The quotient as a fraction of naturals of `num / den` by `2 ^ e`. -/
def scaled (num den : Nat) (e : Int) : Nat × Nat :=
  (num * Nat.pow 2 (-e).toNat, den * Nat.pow 2 e.toNat)

def roundHalfEven (num den : Nat) : Nat :=
  let q := num / den
  let twice := 2 * (num % den)
  if twice < den then q
  else if den < twice then q + 1
  else q + q % 2

/-- The exponent at which `num / den` has a mantissa of 53 bits, or the least one. -/
def exponentFor (num den : Nat) : Int :=
  let guess : Int := (num.log2 : Int) - den.log2 - 52
  let (n, d) := scaled num den guess
  max (if n / d < Nat.pow 2 52 then guess - 1 else guess) minExponent

/-- The nearest magnitude to `num / den`, or `none` past the largest one. -/
def nearest (negative : Bool) (num den : Nat) : Option Double :=
  if num = 0 then some ⟨negative, 0, minExponent⟩
  else
    let e := exponentFor num den
    let (n, d) := scaled num den e
    let m := roundHalfEven n d
    let (m, e) := if m = Nat.pow 2 53 then (Nat.pow 2 52, e + 1) else (m, e)
    if maxExponent < e then none else some ⟨negative, m, e⟩

def isZero (x : Double) : Bool := x.mantissa == 0

/-- The magnitude as a quotient of naturals. -/
def ratio (x : Double) : Nat × Nat :=
  (x.mantissa * Nat.pow 2 x.exponent.toNat, Nat.pow 2 (-x.exponent).toNat)

def mul (x y : Double) : Option Double :=
  nearest (x.negative != y.negative) (x.ratio.1 * y.ratio.1) (x.ratio.2 * y.ratio.2)

/-- The quotient by a number other than zero. -/
def div (x y : Double) : Option Double :=
  nearest (x.negative != y.negative) (x.ratio.1 * y.ratio.2) (x.ratio.2 * y.ratio.1)

def powerOfTen (n : Nat) : Option Double := nearest false (Nat.pow 10 n) 1

/-- The largest power of ten that has a magnitude. -/
def maxPower : Nat := 308

/-- Divides by `10 ^ n` in steps of the largest power. -/
def divPower (x : Double) (n : Nat) : Option Double :=
  if n ≤ maxPower then (powerOfTen n).bind x.div
  else if x.isZero then some x
  else ((powerOfTen maxPower).bind x.div).bind (divPower · (n - maxPower))
termination_by n
decreasing_by simp [maxPower] at *; omega

/-- The number written by a significand and a power of ten: the significand is
rounded first, then scaled by a rounded power. `none` is past the largest one. -/
def ofDecimal (negative : Bool) (significand : Nat) (exponent : Int) : Option Double :=
  (nearest negative significand 1).bind fun x =>
    if exponent < 0 then x.divPower (-exponent).toNat
    else if exponent.toNat ≤ maxPower then (powerOfTen exponent.toNat).bind x.mul
    else if x.isZero then some x
    else none

end Double

end IdentityTokens
