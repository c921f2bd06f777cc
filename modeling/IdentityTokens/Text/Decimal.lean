/-! Decimal integers within bounds. A sign may come first, a minus only where
negative numbers fit; at least one digit follows and nothing else. -/
namespace IdentityTokens.Text

inductive DecimalFault where
  | empty
  | invalidDigit
  | tooLarge
  | tooSmall
deriving DecidableEq, Repr

def DecimalFault.message : DecimalFault → String
  | .empty => "cannot parse integer from empty string"
  | .invalidDigit => "invalid digit found in string"
  | .tooLarge => "number too large to fit in target type"
  | .tooSmall => "number too small to fit in target type"

def digit? (c : Char) : Option Nat :=
  if '0' ≤ c ∧ c ≤ '9' then some (c.toNat - '0'.toNat) else none

/-- Reads digits from the left; `fits` is asked of every value on the way, and
the first fault from the left is the answer. -/
def digitsFrom (fits : Nat → Bool) (beyond : DecimalFault) (value : Nat) :
    List Char → Except DecimalFault Nat
  | [] => .ok value
  | c :: rest =>
    match digit? c with
    | none => .error .invalidDigit
    | some d =>
      if fits (value * 10 + d) then digitsFrom fits beyond (value * 10 + d) rest
      else .error beyond

/-- The integer that a text writes, between `lo` and `hi`. -/
def decimal? (lo hi : Int) (s : String) : Except DecimalFault Int :=
  match s.toList with
  | [] => .error .empty
  | ['+'] | ['-'] => .error .invalidDigit
  | '+' :: ds => (digitsFrom (fun n => (n : Int) ≤ hi) .tooLarge 0 ds).map Int.ofNat
  | '-' :: ds =>
    if lo < 0 then
      (digitsFrom (fun n => lo ≤ -(n : Int)) .tooSmall 0 ds).map fun n => -(n : Int)
    else .error .invalidDigit
  | ds => (digitsFrom (fun n => (n : Int) ≤ hi) .tooLarge 0 ds).map Int.ofNat

end IdentityTokens.Text
