import IdentityTokens.Proofs.Call.Endings
import IdentityTokens.Proofs.Call.Turns

/-! # What a call was told before it ended

A result comes with the events that a call was told on its way to it, whatever it sees of the
memory and however the gates go. A composed call was told first what its first part was, and then
what its second part was; and what a call ends with among others it ends with after its own
events. -/
namespace IdentityTokens

namespace Call

variable {α β : Type} {c : Call α} {es : List Event} {r : Except AuthError α}

inductive Ends : Call α → List Event → Except AuthError α → Prop
  | done (r : Except AuthError α) : Ends (.done r) [] r
  | ask {q : Question} {next : q.Answer → Call α} {es : List Event} {r : Except AuthError α}
      (a : q.Answer) (h : Ends (next a) es r) : Ends (.ask q next) (⟨q, a⟩ :: es) r
  | look {next : Memory → Call α} {es : List Event} {r : Except AuthError α} (m : Memory)
      (h : Ends (next m) es r) : Ends (.look next) es r
  | keep {change : Memory → Memory} {next : Call α} {es : List Event} {r : Except AuthError α}
      (h : Ends next es r) : Ends (.keep change next) es r
  | enter {g : Gate} {next : Bool → Call α} {es : List Event} {r : Except AuthError α}
      (entered : Bool) (h : Ends (next entered) es r) : Ends (.enter g next) es r
  | exit {g : Gate} {next : Call α} {es : List Event} {r : Except AuthError α}
      (h : Ends next es r) : Ends (.exit g next) es r

theorem Ends.mayEnd (h : c.Ends es r) : c.MayEnd r := by
  induction h with
  | done r => exact .done r
  | ask a _ ih => exact .ask a ih
  | look m _ ih => exact .look m ih
  | keep _ ih => exact .keep ih
  | enter entered _ ih => exact .enter entered ih
  | exit _ ih => exact .exit ih

theorem ends_done {x : Except AuthError α} : (done x).Ends es r ↔ es = [] ∧ r = x := by
  constructor
  · intro h
    cases h
    exact ⟨rfl, rfl⟩
  · rintro ⟨rfl, rfl⟩
    exact .done r

theorem ends_now {r : Except AuthError Int64} (h : now.Ends es r) :
    ∃ t, es = [⟨.time, t⟩] ∧ r = .ok t := by
  cases h with
  | ask t h =>
    obtain ⟨rfl, rfl⟩ := ends_done.mp h
    exact ⟨t, rfl, rfl⟩

/-- The parts of a composed call share the events between them. -/
theorem Ends.of_onResult {f : Except AuthError α → Call β} {y : Except AuthError β}
    (h : (c.onResult f).Ends es y) :
    ∃ x fs gs, es = fs ++ gs ∧ c.Ends fs x ∧ (f x).Ends gs y := by
  induction c generalizing es with
  | done x => exact ⟨x, [], es, rfl, .done x, h⟩
  | ask q next ih =>
    cases h with
    | ask a h =>
      obtain ⟨x, fs, gs, rfl, hx, hy⟩ := ih a h
      exact ⟨x, _, gs, rfl, .ask a hx, hy⟩
  | look next ih =>
    cases h with
    | look m h =>
      obtain ⟨x, fs, gs, hes, hx, hy⟩ := ih m h
      exact ⟨x, fs, gs, hes, .look m hx, hy⟩
  | keep change next ih =>
    cases h with
    | keep h =>
      obtain ⟨x, fs, gs, hes, hx, hy⟩ := ih h
      exact ⟨x, fs, gs, hes, .keep hx, hy⟩
  | enter g next ih =>
    cases h with
    | enter entered h =>
      obtain ⟨x, fs, gs, hes, hx, hy⟩ := ih entered h
      exact ⟨x, fs, gs, hes, .enter entered hx, hy⟩
  | exit g next ih =>
    cases h with
    | exit h =>
      obtain ⟨x, fs, gs, hes, hx, hy⟩ := ih h
      exact ⟨x, fs, gs, hes, .exit hx, hy⟩

/-- A sequence fails with its first part, or after it. -/
theorem Ends.of_bind {f : α → Call β} {y : Except AuthError β} (h : (c >>= f).Ends es y) :
    (∃ e, y = .error e ∧ c.Ends es (.error e)) ∨
      ∃ a fs gs, es = fs ++ gs ∧ c.Ends fs (.ok a) ∧ (f a).Ends gs y := by
  obtain ⟨x, fs, gs, rfl, hx, hy⟩ := Ends.of_onResult h
  cases x with
  | error e =>
    obtain ⟨rfl, rfl⟩ := ends_done.mp hy
    rw [List.append_nil]
    exact .inl ⟨e, rfl, hx⟩
  | ok a => exact .inr ⟨a, fs, gs, rfl, hx, hy⟩

end Call

namespace Interleaving

variable {α : Type} {s : Interleaving α} {i : Nat} {c : Call α}

/-- After a turn a call has only those ways left to end that it had before, short of what it was
told in the turn. -/
theorem ends_step (h : s.calls[i]? = some c) (t : Turn) :
    ∃ rest es, (s.step t).calls[i]? = some rest ∧
      own i (s.step t).events = own i s.events ++ es ∧
      ∀ fs r, rest.Ends fs r → c.Ends (es ++ fs) r := by
  by_cases hi : i = t.call
  · subst hi
    have hquiet {s' : Interleaving α} (hevents : s'.events = s.events) :
        own t.call s'.events = own t.call s.events ++ [] := by
      rw [hevents, List.append_nil]
    cases c with
    | done r => exact ⟨_, [], by rw [step_done h, h], hquiet (by rw [step_done h]), fun _ _ => id⟩
    | ask q next =>
      refine ⟨next (t.answers q), [⟨q, t.answers q⟩], ?_, ?_, fun _ _ => .ask _⟩
      · rw [step_ask h]
        exact withRest_self h
      · rw [step_ask h, own_append, own_self]
    | look next =>
      refine ⟨next s.memory, [], ?_, hquiet (by rw [step_look h]; rfl), fun _ _ => .look _⟩
      rw [step_look h]
      exact withRest_self h
    | keep change next =>
      refine ⟨next, [], ?_, hquiet (by rw [step_keep h]; rfl), fun _ _ => .keep⟩
      rw [step_keep h]
      exact withRest_self h
    | enter g next =>
      rw [step_enter h]
      split
      · exact ⟨next false, [], withRest_self h, hquiet rfl, fun _ _ => .enter _⟩
      split
      · exact ⟨next true, [], withRest_self h, hquiet rfl, fun _ _ => .enter _⟩
      · exact ⟨_, [], h, hquiet rfl, fun _ _ => id⟩
    | exit g next =>
      refine ⟨next, [], ?_, hquiet (by rw [step_exit h]; rfl), fun _ _ => .exit⟩
      rw [step_exit h]
      exact withRest_self h
  · refine ⟨c, [], by rw [calls_step_other hi, h], ?_, fun _ _ => id⟩
    rw [own_step_other hi, List.append_nil]

/-- **What a call ends with among others it ends with after its own events.** -/
theorem ends_of_result? {r : Except AuthError α} {turns : List Turn}
    (h : s.calls[i]? = some c) (hr : (s.run turns).result? i = some r) :
    ∃ es, own i (s.run turns).events = own i s.events ++ es ∧ c.Ends es r := by
  induction turns generalizing s c with
  | nil =>
    change s.result? i = some r at hr
    rw [result?, h] at hr
    cases c with
    | done x =>
      obtain rfl := Option.some.inj hr
      exact ⟨[], (List.append_nil _).symm, .done _⟩
    | _ => cases hr
  | cons t turns ih =>
    obtain ⟨rest, es, hrest, hevents, hends⟩ := ends_step h t
    obtain ⟨fs, hfs, hr⟩ := ih hrest hr
    refine ⟨es ++ fs, ?_, hends fs r hr⟩
    rw [← List.append_assoc, ← hevents]
    exact hfs

/-- So it is something that it may end with. -/
theorem mayEnd_of_result? {r : Except AuthError α} {turns : List Turn}
    (h : s.calls[i]? = some c) (hr : (s.run turns).result? i = some r) : c.MayEnd r := by
  obtain ⟨es, -, hends⟩ := ends_of_result? h hr
  exact hends.mayEnd

end Interleaving

end IdentityTokens
