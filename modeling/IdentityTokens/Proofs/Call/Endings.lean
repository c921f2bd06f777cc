import IdentityTokens.Proofs.Call.Runs

/-! # What a call may end with

A call may end with a result if some answers, some memory and some luck at the gates lead to it.
This is read off the call as it is built. What a run of it ends with is such a result, so what holds
of all results that a call may end with holds however it is run. -/
namespace IdentityTokens

namespace Call

variable {α β : Type} {c : Call α} {r : Except AuthError α}

inductive MayEnd : Call α → Except AuthError α → Prop
  | done (r : Except AuthError α) : MayEnd (.done r) r
  | ask {q : Question} {next : q.Answer → Call α} {r : Except AuthError α} (a : q.Answer)
      (h : MayEnd (next a) r) : MayEnd (.ask q next) r
  | look {next : Memory → Call α} {r : Except AuthError α} (m : Memory) (h : MayEnd (next m) r) :
      MayEnd (.look next) r
  | keep {change : Memory → Memory} {next : Call α} {r : Except AuthError α} (h : MayEnd next r) :
      MayEnd (.keep change next) r
  | enter {g : Gate} {next : Bool → Call α} {r : Except AuthError α} (entered : Bool)
      (h : MayEnd (next entered) r) : MayEnd (.enter g next) r
  | exit {g : Gate} {next : Call α} {r : Except AuthError α} (h : MayEnd next r) :
      MayEnd (.exit g next) r

theorem mayEnd_done {x : Except AuthError α} : (done x).MayEnd r ↔ r = x := by
  constructor
  · intro h
    cases h
    rfl
  · rintro rfl
    exact .done r

/-- A composed call ends with what its second part may make of a result of its first part. -/
theorem MayEnd.of_onResult {f : Except AuthError α → Call β} {y : Except AuthError β}
    (h : (c.onResult f).MayEnd y) : ∃ x, c.MayEnd x ∧ (f x).MayEnd y := by
  induction c with
  | done x => exact ⟨x, .done x, h⟩
  | ask q next ih =>
    cases h with
    | ask a h =>
      obtain ⟨x, hx, hy⟩ := ih a h
      exact ⟨x, .ask a hx, hy⟩
  | look next ih =>
    cases h with
    | look m h =>
      obtain ⟨x, hx, hy⟩ := ih m h
      exact ⟨x, .look m hx, hy⟩
  | keep change next ih =>
    cases h with
    | keep h =>
      obtain ⟨x, hx, hy⟩ := ih h
      exact ⟨x, .keep hx, hy⟩
  | enter g next ih =>
    cases h with
    | enter entered h =>
      obtain ⟨x, hx, hy⟩ := ih entered h
      exact ⟨x, .enter entered hx, hy⟩
  | exit g next ih =>
    cases h with
    | exit h =>
      obtain ⟨x, hx, hy⟩ := ih h
      exact ⟨x, .exit hx, hy⟩

theorem MayEnd.of_bind {f : α → Call β} {b : β} (h : (c >>= f).MayEnd (.ok b)) :
    ∃ a, c.MayEnd (.ok a) ∧ (f a).MayEnd (.ok b) := by
  obtain ⟨x, hx, hb⟩ := MayEnd.of_onResult h
  cases x with
  | error e => cases mayEnd_done.mp hb
  | ok a => exact ⟨a, hx, hb⟩

/-! ## What it may fail with -/

section OnlyFails

variable {P P' : AuthError → Prop}

/-- All errors that a call may end with are of some sort. -/
def OnlyFails (P : AuthError → Prop) (c : Call α) : Prop := ∀ e, c.MayEnd (.error e) → P e

theorem onlyFails_done {x : Except AuthError α} (h : ∀ e, x = .error e → P e) :
    (done x).OnlyFails P :=
  fun e he => h e (mayEnd_done.mp he).symm

theorem onlyFails_ok (a : α) : (ok a).OnlyFails P := onlyFails_done (by rintro _ ⟨⟩)

theorem onlyFails_fail {e : AuthError} (h : P e) : (fail e : Call α).OnlyFails P :=
  onlyFails_done (by rintro _ ⟨⟩; exact h)

theorem onlyFails_question (q : Question) : (question q).OnlyFails P := by
  intro e he
  cases he with
  | ask a h => cases mayEnd_done.mp h

theorem onlyFails_memory : memory.OnlyFails P := by
  intro e he
  cases he with
  | look m h => cases mayEnd_done.mp h

theorem onlyFails_remember (change : Memory → Memory) : (remember change).OnlyFails P := by
  intro e he
  cases he with
  | keep h => cases mayEnd_done.mp h

theorem onlyFails_given (h : P .cancelled) (a : Option α) : (given a).OnlyFails P := by
  cases a with
  | some a => exact onlyFails_ok a
  | none => exact onlyFails_fail h

theorem OnlyFails.onResult {f : Except AuthError α → Call β} (hc : c.OnlyFails P)
    (hok : ∀ a, (f (.ok a)).OnlyFails P') (herror : ∀ e, P e → (f (.error e)).OnlyFails P') :
    (c.onResult f).OnlyFails P' := by
  intro e he
  obtain ⟨x, hx, he⟩ := MayEnd.of_onResult he
  cases x with
  | ok a => exact hok a e he
  | error e' => exact herror e' (hc e' hx) e he

theorem OnlyFails.bind {f : α → Call β} (hc : c.OnlyFails P) (hf : ∀ a, (f a).OnlyFails P) :
    (c >>= f).OnlyFails P :=
  hc.onResult hf fun _ h => onlyFails_fail h

/-- What is only tried is gone on with whether it fails or not. -/
theorem OnlyFails.attempt {f : Except AuthError α → Call β} (hc : c.OnlyFails P)
    (hok : ∀ a, (f (.ok a)).OnlyFails P') (herror : ∀ e, P e → (f (.error e)).OnlyFails P') :
    (c.attempt >>= f).OnlyFails P' := by
  intro e he
  obtain ⟨x, hx, he⟩ := MayEnd.of_onResult he
  obtain ⟨y, hy, hx⟩ := MayEnd.of_onResult hx
  cases mayEnd_done.mp hx
  cases y with
  | ok a => exact hok a e he
  | error e' => exact herror e' (hc e' hy) e he

theorem OnlyFails.mapError {f : AuthError → AuthError} (hc : c.OnlyFails P)
    (hf : ∀ e, P e → P' (f e)) : (c.mapError f).OnlyFails P' :=
  hc.onResult (fun _ => onlyFails_done (by rintro _ ⟨⟩)) fun e h =>
    onlyFails_done (by rintro _ ⟨⟩; exact hf e h)

theorem OnlyFails.behind {g : Gate} (hcancelled : P .cancelled) (hc : c.OnlyFails P) :
    (c.behind g).OnlyFails P := by
  intro e he
  cases he with
  | enter entered h =>
    cases entered with
    | false => exact onlyFails_fail hcancelled e h
    | true =>
      refine hc.onResult (fun a e h => ?_) (fun e' he' e h => ?_) e h
      · cases h with
        | exit h => cases mayEnd_done.mp h
      · cases h with
        | exit h =>
          cases mayEnd_done.mp h
          exact he'

end OnlyFails

/-! ## However it is run -/

theorem mayEnd_run (c : Call α) (outside : Outside) (w : World) :
    c.MayEnd (c.run outside w).1 := by
  induction c generalizing w with
  | done r => exact .done r
  | ask q next ih =>
    rw [run]
    split
    · exact .ask _ (ih _ _)
    · exact .ask _ (ih _ _)
  | look next ih => exact .look _ (ih _ _)
  | keep change next ih => exact .keep (ih _)
  | enter g next ih => exact .enter _ (ih _ _)
  | exit g next ih => exact .exit (ih _)

end Call

end IdentityTokens
