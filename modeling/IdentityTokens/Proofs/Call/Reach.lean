import IdentityTokens.Proofs.Call.Deeds

/-! # How far a call gets

A call on its own is answered one question after the other and may stop anywhere on the way.
Where it stands then is found by going along with it: each lemma takes one step, the last
one a whole part. -/
namespace IdentityTokens

namespace Call

variable {α : Type} {c r r' : Call α} {m m' m'' : Memory} {es fs : List Event}

/-- How far a call gets on its own: what it was answered, what is left of it and what is
remembered then. -/
inductive Reaches : Call α → Memory → List Event → Call α → Memory → Prop
  | start (c : Call α) (m : Memory) : Reaches c m [] c m
  | ask {q : Question} {next : q.Answer → Call α} {m : Memory} {es : List Event} {r : Call α}
      {m' : Memory} (a : q.Answer) (h : Reaches (next a) m es r m') :
      Reaches (.ask q next) m (⟨q, a⟩ :: es) r m'
  | look {next : Memory → Call α} {m : Memory} {es : List Event} {r : Call α} {m' : Memory}
      (h : Reaches (next m) m es r m') : Reaches (.look next) m es r m'
  | keep {change : Memory → Memory} {next : Call α} {m : Memory} {es : List Event}
      {r : Call α} {m' : Memory} (h : Reaches next (change m) es r m') :
      Reaches (.keep change next) m es r m'

theorem Reaches.trans (h : Reaches c m es r m') (h' : Reaches r m' fs r' m'') :
    Reaches c m (es ++ fs) r' m'' := by
  induction h with
  | start => exact h'
  | ask a _ ih => exact .ask a (ih h')
  | look _ ih => exact .look (ih h')
  | keep _ ih => exact .keep (ih h')

theorem Reaches.only {P : Deed → Prop} (h : Reaches c m es r m') (hc : c.Only P) : r.Only P := by
  induction h with
  | start => exact hc
  | ask a _ ih => exact ih (hc.2 a)
  | look _ ih => exact ih (hc.2 _)
  | keep _ ih => exact ih hc.2

/-! ## How long a call lasts -/

/-- A call that is through after so many steps at most, whatever it is answered. -/
inductive Lasts : Call α → Nat → Prop
  | done (r : Except AuthError α) (k : Nat) : Lasts (.done r) k
  | ask {q : Question} {next : q.Answer → Call α} {k : Nat} (h : ∀ a, Lasts (next a) k) :
      Lasts (.ask q next) (k + 1)
  | look {next : Memory → Call α} {k : Nat} (h : ∀ m, Lasts (next m) k) :
      Lasts (.look next) (k + 1)
  | keep {change : Memory → Memory} {next : Call α} {k : Nat} (h : Lasts next k) :
      Lasts (.keep change next) (k + 1)

theorem Lasts.mono {j k : Nat} (h : c.Lasts j) (hjk : j ≤ k) : c.Lasts k := by
  induction h generalizing k with
  | done r => exact .done r k
  | ask _ ih =>
    cases k with
    | zero => exact absurd hjk (Nat.not_succ_le_zero _)
    | succ k => exact .ask fun a => ih a (Nat.le_of_succ_le_succ hjk)
  | look _ ih =>
    cases k with
    | zero => exact absurd hjk (Nat.not_succ_le_zero _)
    | succ k => exact .look fun m => ih m (Nat.le_of_succ_le_succ hjk)
  | keep _ ih =>
    cases k with
    | zero => exact absurd hjk (Nat.not_succ_le_zero _)
    | succ k => exact .keep (ih (Nat.le_of_succ_le_succ hjk))

theorem Reaches.lasts {k : Nat} (h : Reaches c m es r m') (hc : c.Lasts k) : r.Lasts k := by
  induction h generalizing k with
  | start => exact hc
  | ask a _ ih =>
    cases hc with
    | ask hc => exact (ih (hc a)).mono (Nat.le_succ _)
  | look _ ih =>
    cases hc with
    | look hc => exact (ih (hc _)).mono (Nat.le_succ _)
  | keep _ ih =>
    cases hc with
    | keep hc => exact (ih hc).mono (Nat.le_succ _)

theorem Lasts.onResult {β : Type} {f : Except AuthError α → Call β} {j k : Nat}
    (h : c.Lasts j) (hf : ∀ r, (f r).Lasts k) : (c.onResult f).Lasts (j + k) := by
  induction h with
  | done r j => exact (hf r).mono (Nat.le_add_left k j)
  | ask _ ih =>
    rw [Nat.succ_add]
    exact .ask ih
  | look _ ih =>
    rw [Nat.succ_add]
    exact .look ih
  | keep _ ih =>
    rw [Nat.succ_add]
    exact .keep ih

theorem Lasts.bind {β : Type} {f : α → Call β} {j k : Nat} (h : c.Lasts j)
    (hf : ∀ a, (f a).Lasts k) : (c >>= f).Lasts (j + k) :=
  h.onResult fun
    | .ok a => hf a
    | .error _ => .done _ k

theorem Lasts.mapError {k : Nat} (f : AuthError → AuthError) (h : c.Lasts k) :
    (c.mapError f).Lasts k :=
  h.onResult fun _ => .done _ 0

theorem lasts_question (q : Question) : (question q).Lasts 1 := .ask fun a => .done (.ok a) 0

theorem lasts_given (a : Option α) : (given a).Lasts 0 := by
  cases a <;> exact .done _ 0

theorem lasts_memory : memory.Lasts 1 := .look fun m => .done (.ok m) 0

theorem lasts_send (r : Except TransportFault Request) : (Web.send r).Lasts 1 := by
  cases r with
  | error f => exact ((lasts_question .goAhead).bind lasts_given).bind fun _ => .done _ 0
  | ok request => exact ((lasts_question (.exchange request)).bind lasts_given).bind fun _ => .done _ 0

/-! ## Going along with a call -/

theorem reaches_done {x : Except AuthError α} (h : Reaches (.done x) m es r m') :
    es = [] ∧ r = .done x ∧ m' = m := by
  cases h
  exact ⟨rfl, rfl, rfl⟩

theorem reaches_ask {q : Question} {next : q.Answer → Call α}
    (h : Reaches (.ask q next) m es r m') :
    (es = [] ∧ r = .ask q next ∧ m' = m) ∨
      ∃ a fs, es = ⟨q, a⟩ :: fs ∧ Reaches (next a) m fs r m' := by
  cases h with
  | start => exact .inl ⟨rfl, rfl, rfl⟩
  | ask a h => exact .inr ⟨a, _, rfl, h⟩

theorem reaches_look {next : Memory → Call α} (h : Reaches (.look next) m es r m') :
    (es = [] ∧ r = .look next ∧ m' = m) ∨ Reaches (next m) m es r m' := by
  cases h with
  | start => exact .inl ⟨rfl, rfl, rfl⟩
  | look h => exact .inr h

theorem reaches_keep {change : Memory → Memory} {next : Call α}
    (h : Reaches (.keep change next) m es r m') :
    (es = [] ∧ r = .keep change next ∧ m' = m) ∨ Reaches next (change m) es r m' := by
  cases h with
  | start => exact .inl ⟨rfl, rfl, rfl⟩
  | keep h => exact .inr h

theorem onResult_onResult {β γ : Type} (c : Call α) (f : Except AuthError α → Call β)
    (k : Except AuthError β → Call γ) :
    (c.onResult f).onResult k = c.onResult fun r => (f r).onResult k := by
  induction c with
  | done r => rfl
  | ask q next ih => exact congrArg (Call.ask q) (funext ih)
  | look next ih => exact congrArg Call.look (funext ih)
  | keep change next ih => exact congrArg (Call.keep change) ih
  | enter g next ih => exact congrArg (Call.enter g) (funext ih)
  | exit g next ih => exact congrArg (Call.exit g) ih

/-- A composed call is still in its first part, or went through it. -/
theorem reaches_onResult {β : Type} {c : Call α} {f : Except AuthError α → Call β}
    {r : Call β} (h : Reaches (c.onResult f) m es r m') :
    (∃ c', (∀ x, c' ≠ .done x) ∧ Reaches c m es c' m' ∧ r = c'.onResult f) ∨
      ∃ x m₁ es₁ es₂, es = es₁ ++ es₂ ∧ Reaches c m es₁ (.done x) m₁ ∧
        Reaches (f x) m₁ es₂ r m' := by
  induction c generalizing m es with
  | done x => exact .inr ⟨x, m, [], es, rfl, .start _ _, h⟩
  | ask q next ih =>
    rcases reaches_ask h with ⟨rfl, rfl, rfl⟩ | ⟨a, fs, rfl, h'⟩
    · exact .inl ⟨.ask q next, fun _ hx => (by cases hx), .start _ _, rfl⟩
    rcases ih a h' with ⟨c', hd, hc, hr⟩ | ⟨x, m₁, es₁, es₂, rfl, hc, hr⟩
    · exact .inl ⟨c', hd, .ask a hc, hr⟩
    · exact .inr ⟨x, m₁, _, es₂, rfl, .ask a hc, hr⟩
  | look next ih =>
    rcases reaches_look h with ⟨rfl, rfl, rfl⟩ | h'
    · exact .inl ⟨.look next, fun _ hx => (by cases hx), .start _ _, rfl⟩
    rcases ih m h' with ⟨c', hd, hc, hr⟩ | ⟨x, m₁, es₁, es₂, rfl, hc, hr⟩
    · exact .inl ⟨c', hd, .look hc, hr⟩
    · exact .inr ⟨x, m₁, _, es₂, rfl, .look hc, hr⟩
  | keep change next ih =>
    rcases reaches_keep h with ⟨rfl, rfl, rfl⟩ | h'
    · exact .inl ⟨.keep change next, fun _ hx => (by cases hx), .start _ _, rfl⟩
    rcases ih h' with ⟨c', hd, hc, hr⟩ | ⟨x, m₁, es₁, es₂, rfl, hc, hr⟩
    · exact .inl ⟨c', hd, .keep hc, hr⟩
    · exact .inr ⟨x, m₁, _, es₂, rfl, .keep hc, hr⟩
  | enter g next =>
    cases h
    exact .inl ⟨.enter g next, fun _ hx => (by cases hx), .start _ _, rfl⟩
  | exit g next =>
    cases h
    exact .inl ⟨.exit g next, fun _ hx => (by cases hx), .start _ _, rfl⟩

end Call

end IdentityTokens
