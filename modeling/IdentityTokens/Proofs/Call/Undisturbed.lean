import IdentityTokens.Proofs.Call.Cancellation
import IdentityTokens.Proofs.Call.Reach

/-! # Calls that are not disturbed

Some results a call comes to only if it is cancelled, and whether that is so is read off the call
as it is built; so is how many turns it needs. Among others, then, a call that is never cancelled
comes to no such result, and one that is never kept waiting comes to a result in so many turns of
its own. -/
namespace IdentityTokens

namespace Call

variable {α β : Type} {bad bad' : Except AuthError α → Prop} {c : Call α} {j k : Nat}

/-- Nothing but its being cancelled leads the call to some sort of result. -/
def Avoids (bad : Except AuthError α → Prop) : Call α → Prop
  | .done r => ¬ bad r
  | .ask q next => ∀ a, (Event.mk q a).interrupts = false → (next a).Avoids bad
  | .look next => ∀ m, (next m).Avoids bad
  | .keep _ next => next.Avoids bad
  | .enter _ next => (next true).Avoids bad
  | .exit _ next => next.Avoids bad

theorem Avoids.onResult {f : Except AuthError α → Call β} {worse : Except AuthError β → Prop}
    (hc : c.Avoids bad) (hf : ∀ r, ¬ bad r → (f r).Avoids worse) :
    (c.onResult f).Avoids worse := by
  induction c with
  | done r => exact hf r hc
  | ask q next ih => exact fun a ha => ih a (hc a ha)
  | look next ih => exact fun m => ih m (hc m)
  | keep change next ih => exact ih hc
  | enter g next ih => exact ih true hc
  | exit g next ih => exact ih hc

theorem Avoids.behind {g : Gate} (hc : c.Avoids bad) : (c.behind g).Avoids bad :=
  hc.onResult fun _ hr => hr

/-- A call that takes no more than so many turns, if none of them is in vain. -/
inductive Takes : Call α → Nat → Prop
  | done (r : Except AuthError α) (k : Nat) : Takes (.done r) k
  | ask {q : Question} {next : q.Answer → Call α} {k : Nat} (h : ∀ a, Takes (next a) k) :
      Takes (.ask q next) (k + 1)
  | look {next : Memory → Call α} {k : Nat} (h : ∀ m, Takes (next m) k) :
      Takes (.look next) (k + 1)
  | keep {change : Memory → Memory} {next : Call α} {k : Nat} (h : Takes next k) :
      Takes (.keep change next) (k + 1)
  | enter {g : Gate} {next : Bool → Call α} {k : Nat} (h : ∀ entered, Takes (next entered) k) :
      Takes (.enter g next) (k + 1)
  | exit {g : Gate} {next : Call α} {k : Nat} (h : Takes next k) : Takes (.exit g next) (k + 1)

/-- What lasts so long without any gate takes one turn more to come in and one to leave. -/
theorem Lasts.takes_behind {g : Gate} (h : c.Lasts k) : (c.behind g).Takes (k + 2) := by
  refine .enter fun entered => ?_
  cases entered with
  | false => exact .done _ _
  | true =>
    change (c.onResult fun r => .exit g (.done r)).Takes (k + 1)
    induction h with
    | done r k => exact .exit (.done r k)
    | ask _ ih => exact .ask ih
    | look _ ih => exact .look ih
    | keep _ ih => exact .keep ih

end Call

namespace Interleaving

open Call

variable {α : Type} {bad : Except AuthError α → Prop} {s : Interleaving α} {t : Turn} {i k : Nat}
  {c : Call α}

/-! ## Never cancelled -/

/-- No turn in a run that goes on cancels the call. -/
def Uncancelled (i : Nat) (s : Interleaving α) (ts : List Turn) : Prop :=
  ∀ pre t post, ts = pre ++ t :: post → t.call = i → ¬ Cancels t (s.run pre)

theorem avoids_step (h : c.Avoids bad) (hc : s.calls[i]? = some c)
    (ht : t.call = i → ¬ Cancels t s) :
    ∃ c', (s.step t).calls[i]? = some c' ∧ c'.Avoids bad := by
  by_cases hi : i = t.call
  · subst hi
    have hgoes := ht rfl
    cases c with
    | done r =>
      rw [step_done hc]
      exact ⟨_, hc, h⟩
    | ask q next =>
      rw [step_ask hc]
      refine ⟨_, withRest_self hc, h _ ?_⟩
      rw [Bool.eq_false_iff]
      exact fun ha => hgoes (.asked q next hc ha)
    | look next =>
      rw [step_look hc]
      exact ⟨_, withRest_self hc, h _⟩
    | keep change next =>
      rw [step_keep hc]
      exact ⟨_, withRest_self hc, h⟩
    | enter g next =>
      rw [step_enter hc]
      split
      · rename_i hstops
        obtain ⟨hstops, hg⟩ := Bool.and_eq_true_iff.mp hstops
        exact absurd (.waiting g next hc hg hstops) hgoes
      · split
        · exact ⟨_, withRest_self hc, h⟩
        · exact ⟨_, hc, h⟩
    | exit g next =>
      rw [step_exit hc]
      exact ⟨_, withRest_self hc, h⟩
  · exact ⟨c, (calls_step_other hi).trans hc, h⟩

/-- **Whoever is never cancelled does not come to what only that leads to.** -/
theorem not_bad_of_uncancelled (h : c.Avoids bad) (hc : s.calls[i]? = some c) (ts : List Turn)
    (hts : Uncancelled i s ts) {r : Except AuthError α} (hr : (s.run ts).result? i = some r) :
    ¬ bad r := by
  induction ts generalizing s c with
  | nil =>
    change s.result? i = some r at hr
    rw [result?, hc] at hr
    cases c <;> cases hr
    exact h
  | cons t ts ih =>
    obtain ⟨c', hc', h'⟩ := avoids_step h hc (hts [] t ts rfl)
    exact ih h' hc' (fun pre u post hsplit => hts (t :: pre) u post (congrArg (t :: ·) hsplit)) hr

/-! ## Never kept waiting -/

/-- The turn is in vain: its call stands in front of a gate that somebody is behind, and is not
cancelled there. -/
def KeptWaiting (t : Turn) (s : Interleaving α) : Prop :=
  ∃ g next, s.calls[t.call]? = some (.enter g next) ∧ s.inside g ≠ none ∧
    (t.stops && g.isInterruptible) = false

theorem takes_step (h : c.Takes (k + 1)) (hc : s.calls[t.call]? = some c)
    (ht : ¬ KeptWaiting t s) :
    ∃ c', (s.step t).calls[t.call]? = some c' ∧ c'.Takes k := by
  cases h with
  | done r =>
    rw [step_done hc]
    exact ⟨_, hc, .done r k⟩
  | ask h =>
    rw [step_ask hc]
    exact ⟨_, withRest_self hc, h _⟩
  | look h =>
    rw [step_look hc]
    exact ⟨_, withRest_self hc, h _⟩
  | keep h =>
    rw [step_keep hc]
    exact ⟨_, withRest_self hc, h⟩
  | @enter g next _ h =>
    rw [step_enter hc]
    split
    · exact ⟨_, withRest_self hc, h false⟩
    · rename_i hstays
      split
      · exact ⟨_, withRest_self hc, h true⟩
      · rename_i hoccupied
        exact absurd ⟨g, next, hc, hoccupied, Bool.eq_false_iff.mpr hstays⟩ ht
  | exit h =>
    rw [step_exit hc]
    exact ⟨_, withRest_self hc, h⟩

/-- **Whoever is never kept waiting comes to a result** in so many turns of its own. -/
theorem ends_of_takes (h : c.Takes k) (hc : s.calls[i]? = some c) (ts : List Turn)
    (hfree : ∀ pre t post, ts = pre ++ t :: post → t.call = i → ¬ KeptWaiting t (s.run pre))
    (hts : k ≤ ts.countP (·.call = i)) : ∃ r, (s.run ts).result? i = some r := by
  induction ts generalizing s c k with
  | nil =>
    obtain rfl : k = 0 := Nat.le_zero.mp hts
    cases h with
    | done r => exact ⟨r, result?_of_done hc⟩
  | cons t ts ih =>
    have hlater : ∀ pre u post, ts = pre ++ u :: post → u.call = i →
        ¬ KeptWaiting u ((s.step t).run pre) :=
      fun pre u post hsplit => hfree (t :: pre) u post (congrArg (t :: ·) hsplit)
    by_cases hi : t.call = i
    · subst hi
      rw [List.countP_cons_of_pos (by simp)] at hts
      cases k with
      | zero =>
        cases h with
        | done r => exact ⟨r, result?_run (result?_of_done hc) (t :: ts)⟩
      | succ k =>
        obtain ⟨c', hc', h'⟩ := takes_step h hc (hfree [] t ts rfl rfl)
        exact ih h' hc' hlater (Nat.le_of_succ_le_succ hts)
    · rw [List.countP_cons_of_neg (by simpa using hi)] at hts
      exact ih h ((calls_step_other (Ne.symm hi)).trans hc) hlater hts

end Interleaving

end IdentityTokens
