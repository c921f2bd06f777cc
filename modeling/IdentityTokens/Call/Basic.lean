import IdentityTokens.Files
import IdentityTokens.Keys.Basic
import IdentityTokens.Net.Exchange
import IdentityTokens.Users.State

/-! Calls, as far as they reach beyond themselves. A call asks what lies outside,
reads and changes what is remembered between calls, and enters gates that let one
call through at a time; a call ends with a value or an error. How questions are
answered, and how calls made at one time take turns, is left open. -/
namespace IdentityTokens

/-- The last snapshot of a source, and how often it was replaced: two snapshots
with the same keys are told apart by it. -/
structure KeyCache where
  latest : Option KeySnapshot
  refreshes : Nat
deriving DecidableEq, Repr

namespace KeyCache

def empty : KeyCache := ⟨none, 0⟩

def replace (c : KeyCache) (s : KeySnapshot) : KeyCache := ⟨some s, c.refreshes + 1⟩

end KeyCache

/-- What is remembered between calls. -/
structure Memory where
  idTokenKeys : KeyCache
  sessionCookieKeys : KeyCache
  /-- The service account that was found out. -/
  account : Option String
deriving DecidableEq, Repr

namespace Memory

def empty : Memory := ⟨.empty, .empty, none⟩

def keys (m : Memory) : Kind → KeyCache
  | .idToken => m.idTokenKeys
  | .sessionCookie => m.sessionCookieKeys

def replaceKeys (kind : Kind) (s : KeySnapshot) (m : Memory) : Memory :=
  match kind with
  | .idToken => { m with idTokenKeys := m.idTokenKeys.replace s }
  | .sessionCookie => { m with sessionCookieKeys := m.sessionCookieKeys.replace s }

def setAccount (email : String) (m : Memory) : Memory := { m with account := some email }

end Memory

/-- One gate for each thing that is remembered. -/
inductive Gate where
  | keys (kind : Kind)
  | account
deriving DecidableEq, Repr

/-- Whether a call that is cancelled stops waiting. -/
def Gate.isInterruptible : Gate → Bool
  | keys _ => true
  | account => false

inductive Question where
  /-- Whether the call may go on. -/
  | goAhead
  | time
  | exchange (request : Request)
  | file (path : String)
  /-- What collaborators of the caller's own answer. -/
  | accessToken
  | trustedKeys (kind : Kind)
  | userState (uid : String)
  | signerEmail
  | signature (input : Bytes)
deriving DecidableEq, Repr

namespace Question

/-- Nothing where the call was cancelled before the answer. -/
@[reducible] def Answer : Question → Type
  | goAhead => Option Unit
  | time => Int64
  | exchange _ => Option Outcome
  | file _ => Option (Except FileFault Bytes)
  | accessToken => Except AuthError String
  | trustedKeys _ => Except AuthError KeySnapshot
  | userState _ => Except AuthError UserState
  | signerEmail => Except AuthError String
  | signature _ => Except AuthError Bytes

end Question

inductive Call (α : Type) where
  | done (result : Except AuthError α)
  | ask (question : Question) (next : question.Answer → Call α)
  | look (next : Memory → Call α)
  | keep (change : Memory → Memory) (next : Call α)
  /-- Goes on once it is let in, or without it when it is cancelled before. -/
  | enter (gate : Gate) (next : Bool → Call α)
  | exit (gate : Gate) (next : Call α)

namespace Call

variable {α β : Type}

def ok (a : α) : Call α := .done (.ok a)

def fail (e : AuthError) : Call α := .done (.error e)

/-- Goes on with the result of a call, whether a value or an error. -/
def onResult (f : Except AuthError α → Call β) : Call α → Call β
  | .done r => f r
  | .ask q next => .ask q fun a => onResult f (next a)
  | .look next => .look fun m => onResult f (next m)
  | .keep change next => .keep change (onResult f next)
  | .enter g next => .enter g fun entered => onResult f (next entered)
  | .exit g next => .exit g (onResult f next)

def andThen (c : Call α) (f : α → Call β) : Call β :=
  c.onResult fun
    | .ok a => f a
    | .error e => fail e

instance : Monad Call where
  pure := ok
  bind := andThen

instance : MonadLift (Except AuthError) Call := ⟨.done⟩

/-- An error becomes a result like any other. -/
def attempt (c : Call α) : Call (Except AuthError α) := c.onResult ok

def mapError (f : AuthError → AuthError) (c : Call α) : Call α :=
  c.onResult fun r => .done (r.mapError f)

def question (q : Question) : Call q.Answer := .ask q ok

/-- A question that a cancelled call gets no answer to. -/
def given : Option α → Call α
  | some a => ok a
  | none => fail .cancelled

def mayGoOn : Call Unit := do given (← question .goAhead)

def now : Call Int64 := question .time

def exchange (r : Request) : Call Outcome := do given (← question (.exchange r))

def readFile (path : String) : Call (Except FileFault Bytes) := do given (← question (.file path))

def accessToken : Call String := do Call.done (← question .accessToken)

def trustedKeys (kind : Kind) : Call KeySnapshot := do Call.done (← question (.trustedKeys kind))

def userState (uid : String) : Call UserState := do Call.done (← question (.userState uid))

def signerEmail : Call String := do Call.done (← question .signerEmail)

def signature (input : Bytes) : Call Bytes := do Call.done (← question (.signature input))

def memory : Call Memory := .look ok

def remember (change : Memory → Memory) : Call Unit := .keep change (ok ())

/-- Runs a call behind a gate, which is left whatever comes of it. -/
def behind (gate : Gate) (c : Call α) : Call α :=
  .enter gate fun
    | true => c.onResult fun r => .exit gate (.done r)
    | false => fail .cancelled

end Call

end IdentityTokens
