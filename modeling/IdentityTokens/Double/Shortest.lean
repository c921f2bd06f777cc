import IdentityTokens.Double.Basic

/-! The fewest decimal digits that read back to a number, and their layout. -/
namespace IdentityTokens.Double

/-- Whether `c * 10 ^ k` lies between `low / d` and `high / d`. -/
def between (low high d : Nat) (closed : Bool) (c : Nat) (k : Int) : Bool :=
  let v := c * d * Nat.pow 10 k.toNat
  let low := low * Nat.pow 10 (-k).toNat
  let high := high * Nat.pow 10 (-k).toNat
  if closed then low ≤ v && v ≤ high else low < v && v < high

/-- The digits before the point of the number, counted from the first one. -/
def pointPosition (num den : Nat) : Int :=
  if den ≤ num then ((Nat.toDigits 10 (num / den)).length : Int)
  else 1 - ((Nat.toDigits 10 ((den - 1) / num)).length : Int)

/-- The better of the two neighbours of the number on the grid of `10 ^ k`. -/
def onGrid (x : Double) (k : Int) : Option Nat :=
  let (n, d) := x.ratio
  let unit := (x.ratio.1 / x.mantissa)
  let below := if x.mantissa = Nat.pow 2 52 ∧ minExponent < x.exponent then unit else 2 * unit
  let inside := between (4 * n - below) (4 * n + 2 * unit) (4 * d) (x.mantissa % 2 == 0)
  let num := n * Nat.pow 10 (-k).toNat
  let den := d * Nat.pow 10 k.toNat
  let c := num / den
  let twice := 2 * (num % den)
  let upFirst := den < twice || (twice == den && c % 2 == 1)
  if inside c k && inside (c + 1) k then some (if upFirst then c + 1 else c)
  else if inside c k then some c
  else if inside (c + 1) k then some (c + 1)
  else none

def dropZeros : Nat → Nat → Int → Nat × Int
  | 0, c, k => (c, k)
  | fuel + 1, c, k => if c % 10 = 0 then dropZeros fuel (c / 10) (k + 1) else (c, k)

/-- The digits of a number other than zero as `c * 10 ^ k`; no coarser grid has
a point that reads back. Seventeen digits always do. -/
def shortest (x : Double) : Nat × Int :=
  let point := pointPosition x.ratio.1 x.ratio.2
  let found := (List.range 17).findSome? fun i =>
    let k := point - (i + 1 : Nat)
    (x.onGrid k).map fun c => (c, k)
  match found with
  | some (c, k) => dropZeros 17 c k
  | none => (0, 0)

/-- Positional with a point while the point stands at most sixteen digits after
the first digit or four zeros before it; with a signed exponent otherwise. -/
def layout (digits : List Char) (point : Int) : List Char :=
  if 0 < point ∧ point ≤ 16 then
    let n := point.toNat
    if digits.length ≤ n then digits ++ List.replicate (n - digits.length) '0' ++ ['.', '0']
    else digits.take n ++ '.' :: digits.drop n
  else if -5 < point ∧ point ≤ 0 then
    ['0', '.'] ++ List.replicate (-point).toNat '0' ++ digits
  else
    let head := digits.take 1
    let tail := digits.drop 1
    let e := point - 1
    head ++ (if tail.isEmpty then [] else '.' :: tail) ++
      ['e', if e < 0 then '-' else '+'] ++ Nat.toDigits 10 e.natAbs

def render (x : Double) : List Char :=
  let magnitude :=
    if x.isZero then ['0', '.', '0']
    else
      let (c, k) := x.shortest
      let digits := Nat.toDigits 10 c
      layout digits (digits.length + k)
  if x.negative then '-' :: magnitude else magnitude

end IdentityTokens.Double
