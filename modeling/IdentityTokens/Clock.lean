/-! Clocks driven by hand. Several clocks may show one time: a copy moves with
the clock it was made from. Times wrap at the ends of their range when they are
advanced, and sums that must not wrap are taken in `clamp`. -/
namespace IdentityTokens

/-- The nearest time to an integer. -/
def clamp (n : Int) : Int64 :=
  if n < Int64.minValue.toInt then Int64.minValue
  else if n ≤ Int64.maxValue.toInt then Int64.ofInt n
  else Int64.maxValue

/-- The times that can be shown, and which of them each clock shows. -/
structure Clocks where
  times : List Int64
  shown : List Nat
deriving DecidableEq, Repr

namespace Clocks

def single (now : Int64) : Clocks := ⟨[now], [0]⟩

def time? (c : Clocks) (clock : Nat) : Option Int64 :=
  c.shown[clock]?.bind fun t => c.times[t]?

def modify (c : Clocks) (clock : Nat) (f : Int64 → Int64) : Clocks :=
  match c.shown[clock]? with
  | some t => { c with times := c.times.modify t f }
  | none => c

def set (c : Clocks) (clock : Nat) (now : Int64) : Clocks := c.modify clock fun _ => now

def advance (c : Clocks) (clock : Nat) (seconds : Int64) : Clocks := c.modify clock (· + seconds)

/-- Adds a clock that shows the time of another one. -/
def clone (c : Clocks) (clock : Nat) : Clocks :=
  match c.shown[clock]? with
  | some t => { c with shown := c.shown ++ [t] }
  | none => c

/-- Adds a clock with a time of its own. -/
def add (c : Clocks) (now : Int64) : Clocks :=
  ⟨c.times ++ [now], c.shown ++ [c.times.length]⟩

def readings (c : Clocks) : List Int64 := c.shown.filterMap fun t => c.times[t]?

end Clocks

end IdentityTokens
