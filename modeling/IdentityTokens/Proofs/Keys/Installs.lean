import IdentityTokens.Proofs.Keys.Cache

/-! # What a turn puts in place

A turn either leaves the memory as it is or puts a snapshot in place that its own call has
fetched. So whatever holds of a snapshot that is kept, and of each one that is fetched, holds of
what is kept later. -/
namespace IdentityTokens.PublishedKeys

open Call Interleaving

variable {kind : Kind} {url : String} {found m : Memory} {es : List Event}
  {rest : Call KeySnapshot} {s : Interleaving KeySnapshot} {t : Turn}

/-- A call that has fetched a snapshot is about to put it in place, or through with that. It
had found nothing that was not due. -/
theorem Stage.memory_of_some {snapshot : KeySnapshot} (h : Stage kind url found es rest m)
    (hes : fetched? es = some snapshot) :
    (∃ now answers, es = ⟨.time, now⟩ :: answers ∧ (found.keys kind).fresh? now = none) ∧
      ((m = found ∧ ∀ r, rest ≠ .done r) ∨
        (m = found.replaceKeys kind snapshot ∧ rest = .done (.ok snapshot))) := by
  cases h with
  | starting => cases hes
  | fetching _ hlen =>
    rw [fetched?_of_unanswered hlen] at hes
    cases hes
  | storing h hs => exact ⟨⟨_, _, rfl, h⟩, .inl ⟨rfl, fun _ => nofun⟩⟩
  | stored h hs =>
    rw [fetched?_of_got _ hs] at hes
    cases hes
    exact ⟨⟨_, _, rfl, h⟩, .inr ⟨rfl, rfl⟩⟩
  | served _ hlen =>
    rw [fetched?_of_length (Nat.lt_succ_of_le hlen)] at hes
    cases hes

/-- What a turn that changes the memory comes to: its call had read the clock, what is kept was
due or of no use then, and what it has fetched since takes its place. -/
structure Installs (kind : Kind) (t : Turn) (s : Interleaving KeySnapshot)
    (snapshot : KeySnapshot) : Prop where
  due : ∃ now answers, own t.call s.events = ⟨.time, now⟩ :: answers ∧
    (s.memory.keys kind).fresh? now = none
  fetched : fetched? (own t.call s.events) = some snapshot
  memory : (s.step t).memory = s.memory.replaceKeys kind snapshot

theorem memory_step (hs : Sessions (.keys kind) (session kind url) s) (t : Turn) :
    (s.step t).memory = s.memory ∨ ∃ snapshot, Installs kind t s snapshot := by
  by_cases hin : s.inside (.keys kind) = some t.call
  · obtain ⟨found, rest, hc, hr⟩ := hs.visit hin
    have ht := insideTurn (hr.only (session_gateless kind url)) hc
    have hgoes : ∃ rest', (session kind url).Reaches found (own t.call s.events) rest'
        (s.step t).memory := by
      generalize s.step t = s' at ht ⊢
      cases ht with
      | asks | leaves => exact ⟨rest, hr⟩
      | goesOn rest' m h =>
        have hr' := hr.trans h
        rw [List.append_nil] at hr'
        exact ⟨rest', hr'⟩
    obtain ⟨rest', hr'⟩ := hgoes
    cases hes : fetched? (own t.call s.events) with
    | none =>
      have hbefore : s.memory = found := (reaches_session hr).memory_of_none hes
      have hafter : (s.step t).memory = found := (reaches_session hr').memory_of_none hes
      exact .inl (hafter.trans hbefore.symm)
    | some snapshot =>
      obtain ⟨hdue, ⟨hm, -⟩ | ⟨-, hrest⟩⟩ := (reaches_session hr).memory_of_some hes
      · obtain ⟨-, ⟨hm', -⟩ | ⟨hm', -⟩⟩ := (reaches_session hr').memory_of_some hes
        · exact .inl (hm'.trans hm.symm)
        · rw [← hm] at hdue hm'
          exact .inr ⟨snapshot, hdue, hes, hm'⟩
      -- A call that has put its snapshot in place has nothing left to go on with.
      · subst hrest
        left
        generalize s.step t = s' at ht ⊢
        cases ht with
        | asks => rfl
        | leaves => rfl
        | goesOn rest' m h => exact (reaches_done h).2.2
  · have ht := hs.outsideTurn hin
    generalize s.step t = s' at ht ⊢
    cases ht <;> exact .inl rfl

/-! ## What is kept has a property of all that is fetched -/

theorem latest_step {P : KeySnapshot → Prop} {latest : KeySnapshot}
    (hs : Sessions (.keys kind) (session kind url) s)
    (hfetched : ∀ snapshot, fetched? (own t.call s.events) = some snapshot → P snapshot)
    (hlatest : (s.memory.keys kind).latest = some latest) (hP : P latest) :
    ∃ next, ((s.step t).memory.keys kind).latest = some next ∧ P next := by
  rcases memory_step hs t with hm | ⟨snapshot, hi⟩
  · exact ⟨latest, by rw [hm, hlatest], hP⟩
  · refine ⟨snapshot, ?_, hfetched snapshot hi.fetched⟩
    rw [hi.memory, Memory.keys_replaceKeys]
    rfl

theorem latest_run {P : KeySnapshot → Prop} {latest : KeySnapshot}
    (hs : Sessions (.keys kind) (session kind url) s) (ts : List Turn)
    (hfetched : ∀ i es snapshot, es <+: own i (s.run ts).events →
      fetched? es = some snapshot → P snapshot)
    (hlatest : (s.memory.keys kind).latest = some latest) (hP : P latest) :
    ∃ next, ((s.run ts).memory.keys kind).latest = some next ∧ P next := by
  induction ts generalizing s latest with
  | nil => exact ⟨latest, hlatest, hP⟩
  | cons t ts ih =>
    have htold : own t.call s.events <+: own t.call (s.run (t :: ts)).events :=
      own_prefix t.call (events_run s (t :: ts))
    obtain ⟨next, hnext, hPnext⟩ := latest_step (t := t) hs (hfetched t.call _ · htold) hlatest hP
    exact ih (hs.step (session_gateless kind url) t) hfetched hnext hPnext

end IdentityTokens.PublishedKeys
