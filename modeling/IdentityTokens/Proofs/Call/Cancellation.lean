import IdentityTokens.Proofs.Call.Deeds
import IdentityTokens.Proofs.Call.Turns

/-! # Cancelled calls

A cancelled call should do nothing more than leave the gates it is behind and say that it was
cancelled. That is a matter of how the call is built: after each answer that cancels it, all
that is left must be of that sort. One exception is allowed for, where a call looks at what is
remembered and finds something to fall back on. From there it is shown, by the turns a call
takes, what becomes of it once it is cancelled, whoever else takes turns. -/
namespace IdentityTokens

namespace Call

variable {α β : Type}

/-- All that is left of a call is to say, in so many turns at most, that it was cancelled. It
may look at what is remembered, and there it counts on finding nothing to fall back on. -/
inductive SaysCancelled (fallback : Memory → Prop) : Call α → Nat → Prop
  | done {e : AuthError} (h : e.category = .cancelled) (k : Nat) :
      SaysCancelled fallback (.done (.error e)) k
  | look {next : Memory → Call α} {k : Nat}
      (h : ∀ m, ¬ fallback m → SaysCancelled fallback (next m) k) :
      SaysCancelled fallback (.look next) (k + 1)
  | exit {g : Gate} {next : Call α} {k : Nat} (h : SaysCancelled fallback next k) :
      SaysCancelled fallback (.exit g next) (k + 1)

variable {fallback : Memory → Prop} {c : Call α} {f : Except AuthError α → Call β} {j k : Nat}

theorem saysCancelled_fail (k : Nat) : (fail .cancelled : Call α).SaysCancelled fallback k :=
  .done rfl k

theorem SaysCancelled.mono (h : c.SaysCancelled fallback j) (hjk : j ≤ k) :
    c.SaysCancelled fallback k := by
  induction h generalizing k with
  | done h => exact .done h k
  | look _ ih =>
    cases k with
    | zero => exact absurd hjk (Nat.not_succ_le_zero _)
    | succ k => exact .look fun m hm => ih m hm (Nat.le_of_succ_le_succ hjk)
  | exit _ ih =>
    cases k with
    | zero => exact absurd hjk (Nat.not_succ_le_zero _)
    | succ k => exact .exit (ih (Nat.le_of_succ_le_succ hjk))

theorem SaysCancelled.onResult (h : c.SaysCancelled fallback j)
    (hf : ∀ e, e.category = .cancelled → (f (.error e)).SaysCancelled fallback k) :
    (c.onResult f).SaysCancelled fallback (j + k) := by
  induction h with
  | done h j => exact (hf _ h).mono (Nat.le_add_left k j)
  | look _ ih =>
    rw [Nat.succ_add]
    exact .look ih
  | exit _ ih =>
    rw [Nat.succ_add]
    exact .exit ih

/-- Wherever a call is cancelled, all that is left is to say so, but for what it may fall back
on after a question. -/
def Surfaces (fallback : Question → Memory → Prop) (k : Nat) : Call α → Prop
  | .done _ => True
  | .ask q next =>
    (∀ a, (Event.mk q a).interrupts = true → (next a).SaysCancelled (fallback q) k) ∧
      ∀ a, (next a).Surfaces fallback k
  | .look next => ∀ m, (next m).Surfaces fallback k
  | .keep _ next => next.Surfaces fallback k
  | .enter g next =>
    (g.isInterruptible = true → (next false).SaysCancelled (fun _ => False) k) ∧
      ∀ entered, (next entered).Surfaces fallback k
  | .exit _ next => next.Surfaces fallback k

section Surfaces

variable {fallback : Question → Memory → Prop}

theorem surfaces_done (r : Except AuthError α) : (done r).Surfaces fallback k := trivial

theorem surfaces_ok (a : α) : (ok a).Surfaces fallback k := trivial

theorem surfaces_fail (e : AuthError) : (fail e : Call α).Surfaces fallback k := trivial

theorem surfaces_memory : memory.Surfaces fallback k := fun _ => trivial

theorem surfaces_remember (change : Memory → Memory) : (remember change).Surfaces fallback k :=
  trivial

theorem surfaces_question {q : Question} (h : ∀ a, (Event.mk q a).interrupts = false) :
    (question q).Surfaces fallback k := by
  refine ⟨?_, fun _ => trivial⟩
  intro a ha
  rw [h a] at ha
  cases ha

/-- A question that gives nothing to a call cancelled over it lets it say just that. -/
theorem surfaces_given {q : Question} {got : q.Answer → Option α}
    (h : ∀ a, (Event.mk q a).interrupts = true → got a = none) :
    (question q >>= fun a => given (got a)).Surfaces fallback k := by
  refine ⟨fun a ha => ?_, fun a => ?_⟩
  · change (given (got a)).SaysCancelled (fallback q) k
    rw [h a ha]
    exact saysCancelled_fail k
  · change (given (got a)).Surfaces fallback k
    cases got a <;> trivial

theorem surfaces_mayGoOn : mayGoOn.Surfaces fallback k :=
  surfaces_given (by rintro (_ | _) ⟨⟩; rfl)

theorem surfaces_exchange (r : Request) : (exchange r).Surfaces fallback k :=
  surfaces_given (by rintro (_ | _) ⟨⟩; rfl)

theorem surfaces_readFile (path : String) : (readFile path).Surfaces fallback k :=
  surfaces_given (by rintro (_ | _) ⟨⟩; rfl)

/-- What goes on with the result of a call may fall back on something after the questions that
the call asks, and says that it was cancelled after all else. -/
theorem Surfaces.onResult_of_only {P : Deed → Prop} (hc : c.Surfaces fallback j) (hP : c.Only P)
    (hasked : ∀ q a, P (.ask q) → (Event.mk q a).interrupts = true → ∀ e,
      e.category = .cancelled → (f (.error e)).SaysCancelled (fallback q) k)
    (hentered : ∀ g, P (.enter g) → g.isInterruptible = true → ∀ e, e.category = .cancelled →
      (f (.error e)).SaysCancelled (fun _ => False) k)
    (hf : ∀ r, (f r).Surfaces fallback (j + k)) : (c.onResult f).Surfaces fallback (j + k) := by
  induction c with
  | done r => exact hf r
  | ask q next ih =>
    refine ⟨?_, fun a => ih a (hc.2 a) (hP.2 a)⟩
    intro a ha
    exact (hc.1 a ha).onResult (hasked q a hP.1 ha)
  | look next ih => exact fun m => ih m (hc m) (hP.2 m)
  | keep change next ih => exact ih hc hP.2
  | enter g next ih =>
    refine ⟨?_, fun entered => ih entered (hc.2 entered) (hP.2 entered)⟩
    intro hg
    exact (hc.1 hg).onResult (hentered g hP.1 hg)
  | exit g next ih => exact ih hc hP.2

theorem only_true (c : Call α) : c.Only fun _ => True := by
  induction c with
  | done r => trivial
  | ask q next ih => exact ⟨trivial, ih⟩
  | look next ih => exact ⟨trivial, ih⟩
  | keep change next ih => exact ⟨trivial, ih⟩
  | enter g next ih => exact ⟨trivial, ih⟩
  | exit g next ih => exact ⟨trivial, ih⟩

theorem Surfaces.onResult (hc : c.Surfaces fallback j)
    (hcancelled : ∀ p e, e.category = .cancelled → (f (.error e)).SaysCancelled p k)
    (hf : ∀ r, (f r).Surfaces fallback (j + k)) : (c.onResult f).Surfaces fallback (j + k) :=
  hc.onResult_of_only (only_true c) (fun q _ _ _ => hcancelled (fallback q))
    (fun _ _ _ => hcancelled _) hf

theorem Surfaces.bind {f : α → Call β} (hc : c.Surfaces fallback k)
    (hf : ∀ a, (f a).Surfaces fallback k) : (c >>= f).Surfaces fallback k := by
  refine Surfaces.onResult (k := 0) hc (fun _ _ he => .done he 0) ?_
  intro r
  cases r with
  | ok a => exact hf a
  | error e => trivial

/-- An error may become another one that says as much. -/
theorem Surfaces.mapError {f : AuthError → AuthError}
    (hf : ∀ e, e.category = .cancelled → (f e).category = .cancelled)
    (hc : c.Surfaces fallback k) : (c.mapError f).Surfaces fallback k :=
  Surfaces.onResult (k := 0) hc (fun _ e he => .done (hf e he) 0) fun _ => trivial

theorem Surfaces.behind {g : Gate} (hc : c.Surfaces fallback k) :
    (c.behind g).Surfaces fallback (k + 1) := by
  refine ⟨fun _ => saysCancelled_fail (k + 1), ?_⟩
  intro entered
  cases entered with
  | true => exact hc.onResult (fun _ _ he => .exit (.done he 0)) fun _ => trivial
  | false => trivial

theorem surfaces_send (r : Except TransportFault Request) :
    (Web.send r).Surfaces fallback k := by
  cases r with
  | error fault => exact surfaces_mayGoOn.bind fun _ => surfaces_fail _
  | ok request => exact (surfaces_exchange request).bind fun _ => surfaces_done _

theorem surfaces_post (bearer : Bearer) (url : String) (body : Json) :
    (Web.post bearer url body).Surfaces fallback k := by
  have htoken : bearer.token.Surfaces fallback k := by
    cases bearer with
    | nobody => exact surfaces_ok none
    | fixed token => exact surfaces_ok (some token)
    | custom =>
      have hasked : accessToken.Surfaces fallback k :=
        (surfaces_question fun _ => rfl).bind fun _ => surfaces_done _
      exact hasked.bind fun _ => surfaces_ok _
  exact htoken.bind fun token => surfaces_send _

end Surfaces

end Call

/-! ## Cancelled where it stands -/

namespace Interleaving

open Call

variable {α : Type} {s : Interleaving α} {t : Turn} {i k : Nat} {c : Call α}
  {fallback : Question → Memory → Prop}

/-- The turn cancels its call: over a question, or where it waits for a gate. -/
inductive Cancels (t : Turn) (s : Interleaving α) : Prop
  | asked (q : Question) (next : q.Answer → Call α) (hc : s.calls[t.call]? = some (.ask q next))
      (ha : (Event.mk q (t.answers q)).interrupts = true)
  | waiting (g : Gate) (next : Bool → Call α) (hc : s.calls[t.call]? = some (.enter g next))
      (hg : g.isInterruptible = true) (hstops : t.stops = true)

/-- In a run that goes on, a call only says that it was cancelled. -/
structure SurfacesIn (i k : Nat) (s : Interleaving α) (ts : List Turn) : Prop where
  fails : ∀ x, (s.run ts).result? i = some x → ∃ e, x = .error e ∧ e.category = .cancelled
  ends : k ≤ ts.countP (·.call = i) → ∃ x, (s.run ts).result? i = some x
  keeps : ∀ pre t post, ts = pre ++ t :: post → t.call = i →
    ((s.run pre).step t).memory = (s.run pre).memory

/-- In a run that goes on, a turn of a call finds something to fall back on. -/
def FallsBack (fallback : Memory → Prop) (i : Nat) (s : Interleaving α) (ts : List Turn) : Prop :=
  ∃ pre t post, ts = pre ++ t :: post ∧ t.call = i ∧ fallback (s.run pre).memory

theorem FallsBack.cons {fallback : Memory → Prop} {ts : List Turn}
    (h : FallsBack fallback i (s.step t) ts) : FallsBack fallback i s (t :: ts) := by
  obtain ⟨pre, u, post, rfl, hi, hm⟩ := h
  exact ⟨t :: pre, u, post, rfl, hi, hm⟩

theorem SurfacesIn.cons {j : Nat} {ts : List Turn} (h : SurfacesIn i j (s.step t) ts)
    (hm : t.call = i → (s.step t).memory = s.memory)
    (hcount : k ≤ (t :: ts).countP (·.call = i) → j ≤ ts.countP (·.call = i)) :
    SurfacesIn i k s (t :: ts) where
  fails := h.fails
  ends hk := h.ends (hcount hk)
  keeps pre u post hts hi := by
    cases pre with
    | nil =>
      cases hts
      exact hm hi
    | cons v pre =>
      cases hts
      exact h.keeps pre u post rfl hi

/-- A turn that finds nothing to fall back on takes a cancelled call one step further out. -/
theorem saysCancelled_step {fallback : Memory → Prop} (h : c.SaysCancelled fallback k)
    (hc : s.calls[t.call]? = some c) (hm : ¬ fallback s.memory) :
    (s.step t).memory = s.memory ∧
      ∃ c', (s.step t).calls[t.call]? = some c' ∧ c'.SaysCancelled fallback (k - 1) := by
  cases h with
  | done he =>
    rw [step_done hc]
    exact ⟨rfl, _, hc, .done he _⟩
  | look hnext =>
    rw [step_look hc]
    exact ⟨rfl, _, withRest_self hc, hnext s.memory hm⟩
  | exit hnext =>
    rw [step_exit hc]
    exact ⟨rfl, _, withRest_self hc, hnext⟩

theorem surfacesIn_nil {fallback : Memory → Prop} (h : c.SaysCancelled fallback k)
    (hc : s.calls[i]? = some c) : SurfacesIn i k s [] where
  fails x hx := by
    change s.result? i = some x at hx
    rw [result?, hc] at hx
    cases h with
    | done he =>
      cases hx
      exact ⟨_, rfl, he⟩
    | look | exit => cases hx
  ends hk := by
    cases h with
    | done => exact ⟨_, result?_of_done hc⟩
    | look | exit => exact absurd hk (Nat.not_succ_le_zero _)
  keeps pre t post hts := absurd hts (by simp)

theorem surfacesIn_of_saysCancelled {fallback : Memory → Prop} (h : c.SaysCancelled fallback k)
    (hc : s.calls[i]? = some c) (ts : List Turn) :
    FallsBack fallback i s ts ∨ SurfacesIn i k s ts := by
  induction ts generalizing s c k with
  | nil => exact .inr (surfacesIn_nil h hc)
  | cons t ts ih =>
    by_cases hi : t.call = i
    · subst hi
      by_cases hm : fallback s.memory
      · exact .inl ⟨[], t, ts, rfl, rfl, hm⟩
      obtain ⟨hmemory, c', hc', h'⟩ := saysCancelled_step h hc hm
      rcases ih h' hc' with hf | hs
      · exact .inl hf.cons
      · refine .inr (hs.cons (fun _ => hmemory) ?_)
        rw [List.countP_cons_of_pos (by simp)]
        omega
    · rcases ih h ((calls_step_other (Ne.symm hi)).trans hc) with hf | hs
      · exact .inl hf.cons
      · refine .inr (hs.cons (fun h => absurd h hi) ?_)
        rw [List.countP_cons_of_neg (by simpa using hi)]
        exact id

/-- A turn takes nothing away from what a call was built for. -/
theorem surfaces_step (h : c.Surfaces fallback k) (hc : s.calls[i]? = some c) (t : Turn) :
    ∃ c', (s.step t).calls[i]? = some c' ∧ c'.Surfaces fallback k := by
  by_cases hi : i = t.call
  · subst hi
    cases c with
    | done r =>
      rw [step_done hc]
      exact ⟨_, hc, h⟩
    | ask q next =>
      rw [step_ask hc]
      exact ⟨_, withRest_self hc, h.2 _⟩
    | look next =>
      rw [step_look hc]
      exact ⟨_, withRest_self hc, h _⟩
    | keep change next =>
      rw [step_keep hc]
      exact ⟨_, withRest_self hc, h⟩
    | enter g next =>
      rw [step_enter hc]
      split
      · exact ⟨_, withRest_self hc, h.2 false⟩
      · split
        · exact ⟨_, withRest_self hc, h.2 true⟩
        · exact ⟨_, hc, h⟩
    | exit g next =>
      rw [step_exit hc]
      exact ⟨_, withRest_self hc, h⟩
  · exact ⟨c, (calls_step_other hi).trans hc, h⟩

theorem surfaces_run (h : c.Surfaces fallback k) (hc : s.calls[i]? = some c) (ts : List Turn) :
    ∃ c', (s.run ts).calls[i]? = some c' ∧ c'.Surfaces fallback k := by
  induction ts generalizing s c with
  | nil => exact ⟨c, hc, h⟩
  | cons t ts ih =>
    obtain ⟨c', hc', h'⟩ := surfaces_step h hc t
    exact ih h' hc'

/-- The question over which a turn cancels its call may let it fall back on something. -/
def FallsBackOver (fallback : Question → Memory → Prop) (t : Turn) (s : Interleaving α)
    (ts : List Turn) : Prop :=
  ∃ q next, s.calls[t.call]? = some (.ask q next) ∧ FallsBack (fallback q) t.call (s.step t) ts

/-- **Once a call that is built for it is cancelled, it says so**, whoever else has turns, or
falls back on what it finds; and the turn that cancels it changes nothing that is remembered. -/
theorem surfacesIn_of_cancels (h : c.Surfaces fallback k) (hc : s.calls[t.call]? = some c)
    (hcancels : Cancels t s) (ts : List Turn) :
    (s.step t).memory = s.memory ∧
      (FallsBackOver fallback t s ts ∨ SurfacesIn t.call k (s.step t) ts) := by
  cases hcancels with
  | asked q next hask ha =>
    rw [hask] at hc
    cases hc
    have hstep := step_ask hask
    refine ⟨by rw [hstep]; rfl, ?_⟩
    have hrest : (s.step t).calls[t.call]? = some (next (t.answers q)) := by
      rw [hstep]
      exact withRest_self hask
    rcases surfacesIn_of_saysCancelled (h.1 _ ha) hrest ts with hf | hs
    · exact .inl ⟨q, next, hask, hf⟩
    · exact .inr hs
  | waiting g next henter hg hstops =>
    rw [henter] at hc
    cases hc
    have hstep := step_enter henter
    rw [hstops, hg, Bool.true_and, if_pos rfl] at hstep
    refine ⟨by rw [hstep]; rfl, .inr ?_⟩
    have hrest : (s.step t).calls[t.call]? = some (next false) := by
      rw [hstep]
      exact withRest_self henter
    rcases surfacesIn_of_saysCancelled (h.1 hg) hrest ts with ⟨pre, u, post, -, -, hno⟩ | hs
    · exact hno.elim
    · exact hs

end Interleaving

end IdentityTokens
