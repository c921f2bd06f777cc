import IdentityTokens.Call.Interleaving

/-! # One turn after another

What a turn does is said once for each form of call, and what it leaves alone is said once
for all of them: another call stays as it is, and so do the events that are its own. -/
namespace IdentityTokens

/-- The events of one call among those of all calls. -/
def own (call : Nat) (events : List (Nat × Event)) : List Event :=
  (events.filter fun e => e.1 = call).map (·.2)

@[simp] theorem own_nil (i : Nat) : own i [] = [] := rfl

@[simp] theorem own_append (i : Nat) (es fs : List (Nat × Event)) :
    own i (es ++ fs) = own i es ++ own i fs := by
  simp [own]

theorem own_self (i : Nat) (e : Event) : own i [(i, e)] = [e] := by simp [own]

theorem own_other {i j : Nat} (h : j ≠ i) (e : Event) : own j [(i, e)] = [] := by
  simp [own, Ne.symm h]

theorem mem_own {i : Nat} {e : Event} {events : List (Nat × Event)} :
    e ∈ own i events ↔ (i, e) ∈ events := by
  simp [own]

namespace Interleaving

variable {α : Type} {s : Interleaving α} {t : Turn}

theorem run_append (s : Interleaving α) (ts us : List Turn) :
    s.run (ts ++ us) = (s.run ts).run us :=
  List.foldl_append

theorem run_concat (s : Interleaving α) (ts : List Turn) (t : Turn) :
    s.run (ts ++ [t]) = (s.run ts).step t := by
  rw [run_append]
  rfl

/-! ## What a turn does -/

theorem step_ask {q : Question} {next : q.Answer → Call α}
    (h : s.calls[t.call]? = some (.ask q next)) :
    s.step t = { s.withRest t.call (next (t.answers q)) with
      events := s.events ++ [(t.call, ⟨q, t.answers q⟩)] } := by
  rw [step, h]

theorem step_look {next : Memory → Call α} (h : s.calls[t.call]? = some (.look next)) :
    s.step t = s.withRest t.call (next s.memory) := by
  rw [step, h]

theorem step_keep {change : Memory → Memory} {next : Call α}
    (h : s.calls[t.call]? = some (.keep change next)) :
    s.step t = { s.withRest t.call next with memory := change s.memory } := by
  rw [step, h]

theorem step_enter {g : Gate} {next : Bool → Call α}
    (h : s.calls[t.call]? = some (.enter g next)) :
    s.step t =
      if t.stops && g.isInterruptible then s.withRest t.call (next false)
      else if s.inside g = none then (s.withRest t.call (next true)).withInside g (some t.call)
      else s := by
  rw [step, h]

theorem step_exit {g : Gate} {next : Call α} (h : s.calls[t.call]? = some (.exit g next)) :
    s.step t = (s.withRest t.call next).withInside g none := by
  rw [step, h]

theorem step_done {r : Except AuthError α} (h : s.calls[t.call]? = some (.done r)) :
    s.step t = s := by
  rw [step, h]

theorem step_none (h : s.calls[t.call]? = none) : s.step t = s := by
  rw [step, h]

/-! ## What a turn leaves alone -/

theorem withRest_self {i : Nat} {c rest : Call α} (h : s.calls[i]? = some c) :
    (s.withRest i rest).calls[i]? = some rest := by
  obtain ⟨hi, -⟩ := List.getElem?_eq_some_iff.mp h
  exact List.getElem?_set_self hi

theorem withRest_other {i j : Nat} (h : j ≠ i) (rest : Call α) :
    (s.withRest i rest).calls[j]? = s.calls[j]? :=
  List.getElem?_set_ne (Ne.symm h)

theorem length_step (s : Interleaving α) (t : Turn) :
    (s.step t).calls.length = s.calls.length := by
  rw [step]
  split
  case h_4 =>
    split
    · exact List.length_set
    · split
      · exact List.length_set
      · rfl
  all_goals first | rfl | exact List.length_set

theorem length_run (s : Interleaving α) (ts : List Turn) :
    (s.run ts).calls.length = s.calls.length := by
  induction ts generalizing s with
  | nil => rfl
  | cons t ts ih => exact (ih (s.step t)).trans (length_step s t)

/-- No call of those that were made gets lost. -/
theorem exists_call {memory : Memory} {calls : List (Call α)} {i : Nat} {c : Call α}
    (h : calls[i]? = some c) (ts : List Turn) :
    ∃ rest, ((start memory calls).run ts).calls[i]? = some rest := by
  refine ⟨_, List.getElem?_eq_getElem ?_⟩
  rw [length_run]
  exact (List.getElem?_eq_some_iff.mp h).1

theorem calls_step_other {i : Nat} (h : i ≠ t.call) :
    (s.step t).calls[i]? = s.calls[i]? := by
  rw [step]
  split
  case h_4 =>
    split
    · exact withRest_other h _
    · split
      · exact withRest_other h _
      · rfl
  all_goals first | rfl | exact withRest_other h _

/-- A call that had no turn is as it was. -/
theorem calls_run_other {i : Nat} {ts : List Turn} (h : ∀ u ∈ ts, u.call ≠ i) :
    (s.run ts).calls[i]? = s.calls[i]? := by
  induction ts generalizing s with
  | nil => rfl
  | cons t ts ih =>
    obtain ⟨ht, hts⟩ := List.forall_mem_cons.mp h
    exact (ih hts).trans (calls_step_other (Ne.symm ht))

/-- Who is inside stays there until it leaves by itself. -/
theorem inside_step_self {g : Gate} (hin : s.inside g = some t.call)
    (hexit : ∀ next, s.calls[t.call]? ≠ some (.exit g next)) :
    (s.step t).inside g = some t.call := by
  rw [step]
  split
  case h_4 g' next hc =>
    split
    · exact hin
    · split
      · rename_i hfree
        have hg : g ≠ g' := by
          rintro rfl
          cases hin.symm.trans hfree
        exact (if_neg hg).trans hin
      · exact hin
  case h_5 g' next hc =>
    have hg : g ≠ g' := by
      rintro rfl
      exact hexit next hc
    exact (if_neg hg).trans hin
  all_goals exact hin

theorem own_step_other {i : Nat} (h : i ≠ t.call) :
    own i (s.step t).events = own i s.events := by
  rw [step]
  split
  case h_1 => rw [own_append, own_other h, List.append_nil]
  case h_4 =>
    split
    · rfl
    · split <;> rfl
  all_goals rfl

theorem own_run_other {i : Nat} {ts : List Turn} (h : ∀ u ∈ ts, u.call ≠ i) :
    own i (s.run ts).events = own i s.events := by
  induction ts generalizing s with
  | nil => rfl
  | cons t ts ih =>
    obtain ⟨ht, hts⟩ := List.forall_mem_cons.mp h
    exact (ih hts).trans (own_step_other (Ne.symm ht))

theorem result?_of_done {i : Nat} {r : Except AuthError α}
    (h : s.calls[i]? = some (.done r)) : s.result? i = some r := by
  rw [result?, h]

/-- A call that ended keeps its result. -/
theorem result?_step {i : Nat} {r : Except AuthError α} (h : s.result? i = some r) :
    (s.step t).result? i = some r := by
  by_cases hi : i = t.call
  · subst hi
    have hc : s.calls[t.call]? = some (.done r) := by
      unfold result? at h
      split at h
      · rename_i r' hr'
        cases h
        exact hr'
      · cases h
    rw [step_done hc]
    exact h
  · rw [result?, calls_step_other hi]
    exact h

theorem result?_run {i : Nat} {r : Except AuthError α} (h : s.result? i = some r)
    (ts : List Turn) : (s.run ts).result? i = some r := by
  induction ts generalizing s with
  | nil => exact h
  | cons t ts ih => exact ih (result?_step h)

/-- What was told stays told. -/
theorem events_step (s : Interleaving α) (t : Turn) : s.events <+: (s.step t).events := by
  rw [step]
  split
  case h_1 => exact List.prefix_append _ _
  case h_4 =>
    split
    · exact List.prefix_rfl
    · split <;> exact List.prefix_rfl
  all_goals exact List.prefix_rfl

theorem events_run (s : Interleaving α) (ts : List Turn) : s.events <+: (s.run ts).events := by
  induction ts generalizing s with
  | nil => exact List.prefix_rfl
  | cons t ts ih => exact (events_step s t).trans (ih (s.step t))

/-! ## Copies of one call -/

/-- One call made a number of times, where nothing is remembered, and the turns that are taken. -/
def runs (c : Call α) (n : Nat) (ts : List Turn) : Interleaving α :=
  (start .empty (List.replicate n c)).run ts

section Runs

variable {c rest : Call α} {n i : Nat} {ts : List Turn}

theorem runs_append (c : Call α) (n : Nat) (ts us : List Turn) :
    runs c n (ts ++ us) = (runs c n ts).run us :=
  run_append _ ts us

theorem runs_append_cons (c : Call α) (n : Nat) (pre : List Turn) (t : Turn) (post : List Turn) :
    runs c n (pre ++ t :: post) = ((runs c n pre).step t).run post :=
  run_append _ pre (t :: post)

theorem runs_concat (c : Call α) (n : Nat) (ts : List Turn) (t : Turn) :
    runs c n (ts ++ [t]) = (runs c n ts).step t :=
  run_concat _ ts t

@[simp] theorem length_runs : (runs c n ts).calls.length = n :=
  (length_run _ ts).trans List.length_replicate

theorem call_of_runs_nil (hi : i < n) : (runs c n []).calls[i]? = some c :=
  List.getElem?_replicate_of_lt hi

theorem eq_of_runs_nil (h : (runs c n []).calls[i]? = some rest) : rest = c :=
  List.eq_of_mem_replicate (List.mem_of_getElem? h)

/-- Before its first turn a call is what was made. -/
theorem call_of_no_turn (hi : i < n) (h : ∀ u ∈ ts, u.call ≠ i) :
    (runs c n ts).calls[i]? = some c :=
  (calls_run_other h).trans (call_of_runs_nil hi)

theorem lt_of_call (h : (runs c n ts).calls[i]? = some rest) : i < n :=
  Nat.lt_of_lt_of_eq (List.getElem?_eq_some_iff.mp h).1 length_runs

theorem lt_of_result? {r : Except AuthError α} (h : (runs c n ts).result? i = some r) : i < n := by
  refine Nat.lt_of_not_le fun hge => ?_
  rw [result?, List.getElem?_eq_none (Nat.le_trans (Nat.le_of_eq length_runs) hge)] at h
  cases h

/-- Whatever has a result now was there at any time. -/
theorem exists_call_of_result? {r : Except AuthError α} (h : (runs c n ts).result? i = some r)
    (us : List Turn) : ∃ rest, (runs c n us).calls[i]? = some rest :=
  exists_call (call_of_runs_nil (lt_of_result? h)) us

end Runs

end Interleaving

theorem own_prefix (i : Nat) {es fs : List (Nat × Event)} (h : es <+: fs) :
    own i es <+: own i fs := by
  obtain ⟨gs, rfl⟩ := h
  rw [own_append]
  exact List.prefix_append _ _

end IdentityTokens
