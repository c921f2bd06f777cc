import IdentityTokens.Call.Run

/-! Calls made at one time. They share what is remembered, each gate lets one of
them through, and it is open which call makes the next step, what it is answered
and whether it is cancelled while it waits. -/
namespace IdentityTokens

structure Interleaving (α : Type) where
  memory : Memory
  /-- The call behind each gate. -/
  inside : Gate → Option Nat
  calls : List (Call α)
  /-- What was asked, with the call that asked it, the first one first. -/
  events : List (Nat × Event)

/-- One call's turn: what it is answered, and whether it stops if it waits. -/
structure Turn where
  call : Nat
  stops : Bool
  answers : (q : Question) → q.Answer

namespace Interleaving

variable {α : Type}

def start (memory : Memory) (calls : List (Call α)) : Interleaving α :=
  ⟨memory, fun _ => none, calls, []⟩

/-- The state with the rest of a call. -/
def withRest (s : Interleaving α) (call : Nat) (rest : Call α) : Interleaving α :=
  { s with calls := s.calls.set call rest }

def withInside (s : Interleaving α) (gate : Gate) (call : Option Nat) : Interleaving α :=
  { s with inside := fun g => if g = gate then call else s.inside g }

/-- A call that ended, or waits on and on, makes no step. -/
def step (s : Interleaving α) (t : Turn) : Interleaving α :=
  match s.calls[t.call]? with
  | some (.ask q next) =>
    let a := t.answers q
    { s.withRest t.call (next a) with events := s.events ++ [(t.call, ⟨q, a⟩)] }
  | some (.look next) => s.withRest t.call (next s.memory)
  | some (.keep change next) => { s.withRest t.call next with memory := change s.memory }
  | some (.enter g next) =>
    if t.stops && g.isInterruptible then s.withRest t.call (next false)
    else if s.inside g = none then (s.withRest t.call (next true)).withInside g (some t.call)
    else s
  | some (.exit g next) => (s.withRest t.call next).withInside g none
  | some (.done _) => s
  | none => s

def run (s : Interleaving α) (turns : List Turn) : Interleaving α := turns.foldl step s

/-- The result of a call that ended. -/
def result? (s : Interleaving α) (call : Nat) : Option (Except AuthError α) :=
  match s.calls[call]? with
  | some (.done r) => some r
  | _ => none

/-- The request that a call waits for an answer to. -/
def inFlight? (s : Interleaving α) (call : Nat) : Option Request :=
  match s.calls[call]? with
  | some (.ask (.exchange r) _) => some r
  | _ => none

end Interleaving

end IdentityTokens
