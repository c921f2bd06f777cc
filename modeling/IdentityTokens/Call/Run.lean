import IdentityTokens.Call.Basic

/-! A call on its own: every gate is open, and what lies outside answers in the
light of all that was asked before. A call that is cancelled stays so; it gets no
answer to what can be interrupted, and nothing is asked. -/
namespace IdentityTokens

structure Event where
  question : Question
  answer : question.Answer

namespace Question

/-- The answer to a cancelled call. -/
def interrupted? : (q : Question) → Option q.Answer
  | goAhead => some none
  | exchange _ => some none
  | file _ => some none
  | _ => none

end Question

namespace Event

/-- Whether the call was cancelled over a question. -/
def interrupts : Event → Bool
  | ⟨.goAhead, none⟩ => true
  | ⟨.exchange _, none⟩ => true
  | ⟨.file _, none⟩ => true
  | _ => false

def request? : Event → Option Request
  | ⟨.exchange r, _⟩ => some r
  | _ => none

end Event

/-- What lies outside, as answers to a question after others, the first one first. -/
abbrev Outside := List Event → (q : Question) → q.Answer

structure World where
  memory : Memory
  cancelled : Bool
  events : List Event

namespace World

def start (memory : Memory) (cancelled : Bool) : World := ⟨memory, cancelled, []⟩

def add (w : World) (e : Event) : World :=
  { w with cancelled := w.cancelled || e.interrupts, events := w.events ++ [e] }

end World

namespace Call

variable {α β : Type}

def run (outside : Outside) : Call α → World → Except AuthError α × World
  | .done r, w => (r, w)
  | .ask q next, w =>
    match (if w.cancelled then q.interrupted? else none) with
    | some a => run outside (next a) w
    | none =>
      let a := outside w.events q
      run outside (next a) (w.add ⟨q, a⟩)
  | .look next, w => run outside (next w.memory) w
  | .keep change next, w => run outside next { w with memory := change w.memory }
  | .enter g next, w => run outside (next !(w.cancelled && g.isInterruptible)) w
  | .exit _ next, w => run outside next w

theorem run_onResult (outside : Outside) (f : Except AuthError α → Call β) (c : Call α)
    (w : World) :
    (c.onResult f).run outside w = (f (c.run outside w).1).run outside (c.run outside w).2 := by
  induction c generalizing w with
  | done r => rfl
  | ask q next ih =>
    simp only [onResult, run]
    split <;> exact ih _ _
  | look next ih => exact ih _ _
  | keep change next ih => exact ih _
  | enter g next ih => exact ih _ _
  | exit g next ih => exact ih _

/-- Runs calls one after the other, as calls made at one time are let in; each result
stands with the memory it leaves. -/
def runEach (outside : Outside) (cancelled : Bool) :
    List (Call α) → World → List (Except AuthError α × Memory) × World
  | [], w => ([], w)
  | c :: cs, w =>
    let (r, w) := c.run outside { w with cancelled }
    let (more, last) := runEach outside cancelled cs w
    ((r, w.memory) :: more, last)

end Call

end IdentityTokens
