import IdentityTokens.Double.Basic

/-! JSON values. Numbers without a fraction or an exponent stay exact as long as
they fit in 64 bits, signed or not. A document may repeat a member; `settled`
gives each name its last value at its first place. -/
namespace IdentityTokens

structure Whole where
  value : Int
  inRange : Int64.minValue.toInt ≤ value ∧ value < UInt64.size
deriving DecidableEq

def Whole.ofInt? (n : Int) : Option Whole :=
  if h : Int64.minValue.toInt ≤ n ∧ n < UInt64.size then some ⟨n, h⟩ else none

inductive Json where
  | null
  | bool (b : Bool)
  | whole (n : Whole)
  | double (d : Double)
  | text (s : String)
  | array (items : List Json)
  | object (members : List (String × Json))
deriving Inhabited

namespace Json

/-- Gives `name` its value: in place if it has one, else at the end. -/
def put {α : Type} (name : String) (v : α) : List (String × α) → List (String × α)
  | [] => [(name, v)]
  | (n, w) :: rest => if n = name then (name, v) :: rest else (n, w) :: put name v rest

def settleMembers {α : Type} (members : List (String × α)) : List (String × α) :=
  members.foldl (fun done m => put m.1 m.2 done) []

def lookup {α : Type} (name : String) : List (String × α) → Option α
  | [] => none
  | (n, v) :: rest => if n = name then some v else lookup name rest

/-- Takes out what `name` stands for. The last one of those behind it comes to its place. -/
def swapErase {α : Type} (name : String) : List (String × α) → List (String × α)
  | [] => []
  | (n, v) :: rest =>
    if n = name then rest.getLast?.toList ++ rest.dropLast else (n, v) :: swapErase name rest

/-- Takes out one name after the other. -/
def swapEraseAll {α : Type} (taken : List String) (members : List (String × α)) :
    List (String × α) :=
  taken.foldl (fun members name => swapErase name members) members

mutual
def settled : Json → Json
  | array items => array (settledItems items)
  | object members => object (settleMembers (settledMembers members))
  | v => v

def settledItems : List Json → List Json
  | [] => []
  | v :: rest => settled v :: settledItems rest

def settledMembers : List (String × Json) → List (String × Json)
  | [] => []
  | (n, v) :: rest => (n, settled v) :: settledMembers rest
end

def ofInt64 (n : Int64) : Json :=
  whole ⟨n.toInt, n.minValue_le_toInt, Int.lt_trans n.toInt_lt (by decide)⟩

/-- The names are the distinct ones, in order. -/
def names {α : Type} (members : List (String × α)) : List String := members.map (·.1)

end Json

end IdentityTokens
