import IdentityTokens.Call.Run

/-! # What a run of a composed call does

A composed call runs its first part and hands the world on to the second, unless the
first part failed. One lemma for each way to compose calls and for each question that
cannot be interrupted; whoever reasons about a run cites them and never unfolds `run`. -/
namespace IdentityTokens

/-! ## Steps in sequence -/

section Sequence

variable {ε α β : Type} {r : Except ε α} {f : α → Except ε β}

theorem ok_of_bind {y : β} (h : (r >>= f) = .ok y) : ∃ x, r = .ok x ∧ f x = .ok y := by
  cases r with
  | error e => cases h
  | ok x => exact ⟨x, rfl, h⟩

theorem error_of_bind {e : ε} (h : (r >>= f) = .error e) :
    r = .error e ∨ ∃ x, r = .ok x ∧ f x = .error e := by
  cases r with
  | error e' =>
    cases h
    exact .inl rfl
  | ok x => exact .inr ⟨x, rfl, h⟩

theorem ok_of_mapError {δ : Type} {f : ε → δ} {x : α} (h : r.mapError f = .ok x) : r = .ok x := by
  cases r with
  | error e => cases h
  | ok y => exact congrArg Except.ok (Except.ok.inj h)

theorem ok_of_map {g : α → β} {y : β} (h : r.map g = .ok y) : ∃ x, r = .ok x ∧ g x = y := by
  cases r with
  | error e => cases h
  | ok x => exact ⟨x, rfl, Except.ok.inj h⟩

theorem ok_of_guard {c : Prop} [Decidable c] {e : ε} {x : α}
    (h : (if c then r else .error e) = .ok x) : c ∧ r = .ok x := by
  split at h
  · rename_i hc
    exact ⟨hc, h⟩
  · cases h

theorem ok_of_refusal {c : Prop} [Decidable c] {e : ε} {x : α}
    (h : (if c then .error e else r) = .ok x) : ¬ c ∧ r = .ok x := by
  split at h
  · cases h
  · rename_i hc
    exact ⟨hc, h⟩

theorem toOption_eq_some {x : α} : r.toOption = some x ↔ r = .ok x := by
  cases r <;> simp [Except.toOption]

end Sequence

/-! ## Calls in sequence -/

/-- What the clock shows when it is read in a world. -/
def World.clock (w : World) (outside : Outside) : Int64 := outside w.events .time

/-- The world once the clock was read. -/
def World.timed (w : World) (outside : Outside) : World := w.add ⟨.time, w.clock outside⟩

namespace Call

variable {α β : Type} {outside : Outside} {w w' : World}

@[simp] theorem run_ok (a : α) : (ok a).run outside w = (.ok a, w) := rfl

@[simp] theorem run_pure (a : α) : (pure a : Call α).run outside w = (.ok a, w) := rfl

@[simp] theorem run_fail (e : AuthError) :
    (fail e : Call α).run outside w = (.error e, w) := rfl

@[simp] theorem run_done (r : Except AuthError α) : (done r).run outside w = (r, w) := rfl

@[simp] theorem run_lift (r : Except AuthError α) :
    (liftM r : Call α).run outside w = (r, w) := rfl

theorem run_bind (c : Call α) (f : α → Call β) :
    (c >>= f).run outside w =
      match c.run outside w with
      | (.ok a, w') => (f a).run outside w'
      | (.error e, w') => (.error e, w') := by
  change (c.onResult _).run outside w = _
  rw [run_onResult]
  rcases c.run outside w with ⟨_ | _, _⟩ <;> rfl

theorem run_bind_ok {c : Call α} {f : α → Call β} {a : α}
    (h : c.run outside w = (.ok a, w')) : (c >>= f).run outside w = (f a).run outside w' := by
  rw [run_bind, h]

theorem run_bind_error {c : Call α} {f : α → Call β} {e : AuthError}
    (h : c.run outside w = (.error e, w')) : (c >>= f).run outside w = (.error e, w') := by
  rw [run_bind, h]

/-- A composed call that succeeds went through its first part. -/
theorem ok_of_run_bind {c : Call α} {f : α → Call β} {b : β}
    (h : (c >>= f).run outside w = (.ok b, w')) :
    ∃ a w₁, c.run outside w = (.ok a, w₁) ∧ (f a).run outside w₁ = (.ok b, w') := by
  rw [run_bind] at h
  rcases hc : c.run outside w with ⟨_ | a, w₁⟩
  · rw [hc] at h
    cases h
  · rw [hc] at h
    exact ⟨a, w₁, rfl, h⟩

theorem run_mapError (f : AuthError → AuthError) (c : Call α) :
    (c.mapError f).run outside w = ((c.run outside w).1.mapError f, (c.run outside w).2) := by
  rw [mapError, run_onResult]
  rfl

theorem run_question (q : Question) :
    (question q).run outside w =
      match (if w.cancelled then q.interrupted? else none) with
      | some a => (.ok a, w)
      | none => (.ok (outside w.events q), w.add ⟨q, outside w.events q⟩) := by
  simp only [question, run]
  rcases (if w.cancelled then q.interrupted? else none) with _ | a <;> rfl

theorem run_now : now.run outside w = (.ok (w.clock outside), w.timed outside) := by
  rw [now, run_question]
  cases w.cancelled <;> rfl

end Call

end IdentityTokens
