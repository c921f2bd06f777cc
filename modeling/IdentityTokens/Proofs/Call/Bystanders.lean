import IdentityTokens.Proofs.Call.Sessions

/-! # Calls that only wait

A call that is never let in may as well not be there. Its turns can be left out, and all that
others ask, find and come to stays as it is; so nothing that befalls it while it waits, not
even that it is cancelled, is noticed by anybody else. -/
namespace IdentityTokens.Interleaving

open Call

variable {α : Type} {g : Gate} {body : Call α} {s s' : Interleaving α} {t : Turn} {i : Nat}

/-- Two states that differ at most in what is left of one call. -/
structure SameBut (i : Nat) (s s' : Interleaving α) : Prop where
  memory : s.memory = s'.memory
  inside : s.inside = s'.inside
  events : s.events = s'.events
  calls : ∀ j, j ≠ i → s.calls[j]? = s'.calls[j]?

namespace SameBut

theorem refl (i : Nat) (s : Interleaving α) : SameBut i s s := ⟨rfl, rfl, rfl, fun _ _ => rfl⟩

theorem result? (h : SameBut i s s') {j : Nat} (hj : j ≠ i) : s.result? j = s'.result? j := by
  rw [Interleaving.result?, Interleaving.result?, h.calls j hj]

/-- What is left of the one call does not count. -/
theorem withRest_left (h : SameBut i s s') (rest : Call α) : SameBut i (s.withRest i rest) s' where
  memory := h.memory
  inside := h.inside
  events := h.events
  calls j hj := (withRest_other hj rest).trans (h.calls j hj)

theorem withRest {k : Nat} {c : Call α} (h : SameBut i s s') (hk : k ≠ i)
    (hc : s.calls[k]? = some c) (rest : Call α) :
    SameBut i (s.withRest k rest) (s'.withRest k rest) where
  memory := h.memory
  inside := h.inside
  events := h.events
  calls j hj := by
    by_cases hjk : j = k
    · subst hjk
      have hc' : s'.calls[j]? = some c := (h.calls j hj).symm.trans hc
      rw [withRest_self hc, withRest_self hc']
    · rw [withRest_other hjk, withRest_other hjk]
      exact h.calls j hj

theorem withInside (h : SameBut i s s') (g : Gate) (k : Option Nat) :
    SameBut i (s.withInside g k) (s'.withInside g k) where
  memory := h.memory
  inside := by rw [Interleaving.withInside, Interleaving.withInside, h.inside]
  events := h.events
  calls := h.calls

/-- A turn of another call comes to the same in both. -/
theorem step (h : SameBut i s s') (hi : t.call ≠ i) : SameBut i (s.step t) (s'.step t) := by
  have hcalls : s.calls[t.call]? = s'.calls[t.call]? := h.calls t.call hi
  rcases hc : s.calls[t.call]? with _ | c
  all_goals
    rw [hc] at hcalls
    replace hcalls := hcalls.symm
  · rw [step_none hc, step_none hcalls]
    exact h
  cases c with
  | done r =>
    rw [step_done hc, step_done hcalls]
    exact h
  | ask q next =>
    rw [step_ask hc, step_ask hcalls]
    obtain ⟨hm, hin, he, hother⟩ := h.withRest hi hc (next (t.answers q))
    exact ⟨hm, hin, by rw [h.events], hother⟩
  | look next =>
    rw [step_look hc, step_look hcalls, h.memory]
    exact h.withRest hi hc _
  | keep change next =>
    rw [step_keep hc, step_keep hcalls]
    obtain ⟨hm, hin, he, hother⟩ := h.withRest hi hc next
    exact ⟨by rw [h.memory], hin, he, hother⟩
  | enter g next =>
    rw [step_enter hc, step_enter hcalls, h.inside]
    split
    · exact h.withRest hi hc _
    · split
      · exact (h.withRest hi hc _).withInside g _
      · exact h
  | exit g next =>
    rw [step_exit hc, step_exit hcalls]
    exact (h.withRest hi hc next).withInside g none

end SameBut

/-- A turn that does not let its call in is noticed by nobody else. -/
theorem Unvisited.sameBut_step (hs : Sessions g body s) (hu : Unvisited g body t.call s)
    (hno : ¬ LetsIn g t s) (h : SameBut t.call s s') : SameBut t.call (s.step t) s' := by
  have hout : s.inside g ≠ some t.call := by
    cases hu with
    | waiting hout => exact hout
    | stopped hout => exact hout
  have ht := hs.outsideTurn hout
  rw [LetsIn] at hno
  generalize s.step t = next at ht hno ⊢
  cases ht with
  | idle => exact h
  | stops => exact h.withRest_left _
  | letIn hfree => exact absurd ⟨hfree, if_pos rfl⟩ hno

/-- **A call that is never let in leaves no trace**: without its turns all else goes the same
way. -/
theorem Unvisited.sameBut_run (hs : Sessions g body s) (hb : body.Only Deed.Gateless)
    (hu : Unvisited g body i s) (h : SameBut i s s') (ts : List Turn)
    (hno : ∀ pre t post, ts = pre ++ t :: post → t.call = i → ¬ LetsIn g t (s.run pre)) :
    SameBut i (s.run ts) (s'.run (ts.filter (·.call ≠ i))) := by
  induction ts generalizing s s' with
  | nil => exact h
  | cons t ts ih =>
    have hs' : Sessions g body (s.step t) := hs.step hb t
    have hlater : ∀ pre u post, ts = pre ++ u :: post → u.call = i →
        ¬ LetsIn g u ((s.step t).run pre) := by
      intro pre u post hts hui
      exact hno (t :: pre) u post (congrArg (t :: ·) hts) hui
    have hu' : Unvisited g body i (s.step t) := by
      rcases hu.step hs hb with hu' | ⟨hi, hin, -⟩
      · exact hu'
      · exact absurd hin (hno [] t ts rfl hi)
    by_cases hi : t.call = i
    · subst hi
      rw [List.filter_cons_of_neg (by simp)]
      exact ih hs' hu' (hu.sameBut_step hs (hno [] t ts rfl rfl) h) hlater
    · rw [List.filter_cons_of_pos (by simpa using hi)]
      exact ih hs' hu' (h.step hi) hlater

/-! ## Coming in -/

/-- Nobody waits on when it could come in. -/
theorem letsIn_of_free (hs : Sessions g body s) (hi : t.call < s.calls.length)
    (hnone : s.result? t.call = none) (hfree : s.inside g = none) (hstays : t.stops = false) :
    LetsIn g t s := by
  have hout : s.inside g ≠ some t.call := by
    rw [hfree]
    exact nofun
  refine ⟨hfree, ?_⟩
  rcases hs.stand t.call hi with (⟨-, hc⟩ | ⟨-, hc⟩) | ⟨found, ⟨-, hin⟩ | ⟨r, m, -, hc⟩⟩
  · rw [step_enter hc, hstays, Bool.false_and, if_neg Bool.false_ne_true, if_pos hfree]
    exact if_pos rfl
  · rw [result?_of_done hc] at hnone
    cases hnone
  · exact absurd hin hout
  · rw [result?_of_done hc] at hnone
    cases hnone

/-- Whoever is cancelled where it waits is through with that. -/
theorem cancelled_of_stops (hs : Sessions g body s) (hi : t.call < s.calls.length)
    (hnone : s.result? t.call = none) (hout : s.inside g ≠ some t.call) (hstops : t.stops = true)
    (hg : g.isInterruptible = true) :
    (s.step t).result? t.call = some (.error .cancelled) := by
  rcases hs.stand t.call hi with (⟨-, hc⟩ | ⟨-, hc⟩) | ⟨found, ⟨-, hin⟩ | ⟨r, m, -, hc⟩⟩
  · refine result?_of_done ?_
    rw [step_enter hc, hstops, hg, Bool.true_and, if_pos rfl]
    exact withRest_self hc
  · rw [result?_of_done hc] at hnone
    cases hnone
  · exact absurd hin hout
  · rw [result?_of_done hc] at hnone
    cases hnone

theorem LetsIn.step_eq (hs : Sessions g body s) (h : LetsIn g t s) :
    s.calls[t.call]? = some (body.behind g) ∧
      s.step t = (s.withRest t.call (body.onResult (leave g))).withInside g (some t.call) := by
  obtain ⟨hfree, hin⟩ := h
  have hout : s.inside g ≠ some t.call := by
    rw [hfree]
    exact nofun
  have ht := hs.outsideTurn hout
  generalize s.step t = next at ht hin ⊢
  cases ht with
  | idle => exact absurd hin hout
  | stops => exact absurd hin hout
  | letIn _ hc => exact ⟨hc, rfl⟩

/-- A call that waits and is not cancelled goes on waiting, or is let in. -/
theorem waits_or_letsIn (hs : Sessions g body s) (hb : body.Only Deed.Gateless)
    (hout : s.inside g ≠ some i) (hc : s.calls[i]? = some (body.behind g)) (ts : List Turn)
    (hstays : ∀ t ∈ ts, t.call = i → t.stops = false) :
    (s.run ts).result? i = none ∨
      ∃ pre t post, ts = pre ++ t :: post ∧ t.call = i ∧ LetsIn g t (s.run pre) := by
  induction ts generalizing s with
  | nil =>
    left
    change s.result? i = none
    rw [result?, hc]
    rfl
  | cons t ts ih =>
    have hs' : Sessions g body (s.step t) := hs.step hb t
    have hlater : ∀ u ∈ ts, u.call = i → u.stops = false :=
      fun u hu => hstays u (List.mem_cons_of_mem t hu)
    have hgo : (s.step t).inside g ≠ some i → (s.step t).calls[i]? = some (body.behind g) →
        (s.run (t :: ts)).result? i = none ∨
          ∃ pre u post, t :: ts = pre ++ u :: post ∧ u.call = i ∧ LetsIn g u (s.run pre) := by
      intro hout' hc'
      rcases ih hs' hout' hc' hlater with hnone | ⟨pre, u, post, rfl, hu, hin⟩
      · exact .inl hnone
      · exact .inr ⟨t :: pre, u, post, rfl, hu, hin⟩
    by_cases hi : t.call = i
    · subst hi
      by_cases hin : LetsIn g t s
      · exact .inr ⟨[], t, ts, rfl, rfl, hin⟩
      have hstep : s.step t = s := by
        rw [step_enter hc, hstays t List.mem_cons_self rfl, Bool.false_and,
          if_neg Bool.false_ne_true]
        refine if_neg ?_
        intro hfree
        refine hin (letsIn_of_free hs ?_ ?_ hfree (hstays t List.mem_cons_self rfl))
        · exact (List.getElem?_eq_some_iff.mp hc).1
        · rw [result?, hc]
          rfl
      refine hgo ?_ ?_
      · rwa [hstep]
      · rwa [hstep]
    · refine hgo ?_ ((calls_step_other (Ne.symm hi)).trans hc)
      rwa [Ne, (hs.step_other hb (Ne.symm hi)).1]

/-- Whoever was neither let in nor cancelled so far comes in as soon as it could. -/
theorem letsIn_of_waiting (hs : Sessions g body s) (hb : body.Only Deed.Gateless)
    (hout : s.inside g ≠ some t.call) (hc : s.calls[t.call]? = some (body.behind g))
    (pre : List Turn) (hstays : ∀ u ∈ pre, u.call = t.call → u.stops = false)
    (hno : ∀ before u after, pre = before ++ u :: after → u.call = t.call →
      ¬ LetsIn g u (s.run before))
    (hfree : (s.run pre).inside g = none) (ht : t.stops = false) : LetsIn g t (s.run pre) := by
  rcases waits_or_letsIn hs hb hout hc pre hstays with hnone | ⟨before, u, after, hpre, hu, hin⟩
  · refine letsIn_of_free (hs.run hb pre) ?_ hnone hfree ht
    rw [length_run]
    exact (List.getElem?_eq_some_iff.mp hc).1
  · exact absurd hin (hno before u after hpre hu)

/-! ## Being inside -/

/-- While others have turns, the one inside stands still and so does what is remembered. -/
structure StandsStill (g : Gate) (i : Nat) (s s' : Interleaving α) : Prop where
  inside : s'.inside g = some i
  memory : s'.memory = s.memory
  calls : s'.calls[i]? = s.calls[i]?
  own : own i s'.events = own i s.events

theorem standsStill_run (hs : Sessions g body s) (hb : body.Only Deed.Gateless)
    (hin : s.inside g = some i) (ts : List Turn) (hts : ∀ t ∈ ts, t.call ≠ i) :
    StandsStill g i s (s.run ts) := by
  induction ts generalizing s with
  | nil => exact ⟨hin, rfl, rfl, rfl⟩
  | cons t ts ih =>
    have hi : i ≠ t.call := Ne.symm (hts t List.mem_cons_self)
    obtain ⟨hinside, hmemory⟩ := hs.step_other hb hi
    have h := ih (hs.step hb t) (hinside.mpr hin) fun u hu => hts u (List.mem_cons_of_mem t hu)
    exact ⟨h.inside, h.memory.trans (hmemory hin), h.calls.trans (calls_step_other hi),
      h.own.trans (own_step_other hi)⟩

/-- The first turn of a call that has turns left. -/
theorem exists_turn {ts : List Turn} (h : 0 < ts.countP (·.call = i)) :
    ∃ pre t post, ts = pre ++ t :: post ∧ t.call = i ∧ (∀ u ∈ pre, u.call ≠ i) ∧
      post.countP (·.call = i) + 1 = ts.countP (·.call = i) := by
  induction ts with
  | nil => exact absurd h (Nat.lt_irrefl 0)
  | cons t ts ih =>
    by_cases hi : t.call = i
    · refine ⟨[], t, ts, rfl, hi, fun _ hu => absurd hu List.not_mem_nil, ?_⟩
      rw [List.countP_cons_of_pos (by simpa using hi)]
    · rw [List.countP_cons_of_neg (by simpa using hi)] at h ⊢
      obtain ⟨pre, u, post, rfl, hu, hpre, hcount⟩ := ih h
      exact ⟨t :: pre, u, post, rfl, hu, List.forall_mem_cons.mpr ⟨hi, hpre⟩, hcount⟩

end IdentityTokens.Interleaving
