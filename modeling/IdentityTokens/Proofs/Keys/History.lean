import IdentityTokens.Proofs.Keys.Stages

/-! # The history of a key cache

While nobody is inside, a cache is what the fetches told by the events leave one after the
other. While somebody is, it is what the fetches before that visit left, or what the one of
this visit makes of it. Each turn keeps that so. -/
namespace IdentityTokens

/-- What is kept once snapshots were put in place one after the other. -/
def KeyCache.after (snapshots : List KeySnapshot) : KeyCache :=
  ⟨snapshots.getLast?, snapshots.length⟩

theorem KeyCache.after_concat (snapshots : List KeySnapshot) (s : KeySnapshot) :
    KeyCache.after (snapshots ++ [s]) = (KeyCache.after snapshots).replace s := by
  simp [KeyCache.after, KeyCache.replace]

@[simp] theorem Memory.keys_replaceKeys (kind : Kind) (s : KeySnapshot) (m : Memory) :
    (m.replaceKeys kind s).keys kind = (m.keys kind).replace s := by
  cases kind <;> rfl

namespace PublishedKeys

open Call Interleaving

variable {kind : Kind} {url : String} {found m : Memory} {es : List Event}
  {rest : Call KeySnapshot}

/-! ## What the stages leave remembered -/

theorem Stage.fetched?_of_ask {q : Question} {next : q.Answer → Call KeySnapshot}
    (h : Stage kind url found es (.ask q next) m) : fetched? es = none := by
  cases h with
  | starting => rfl
  | fetching _ hes => exact fetched?_of_unanswered hes

/-- A call that is through has put in place what it fetched, if it fetched anything. -/
theorem Stage.memory_of_done {x : Except AuthError KeySnapshot}
    (h : Stage kind url found es (.done x) m) :
    (fetched? es = none ∧ m = found) ∨
      ∃ s, fetched? es = some s ∧ m = found.replaceKeys kind s := by
  cases h with
  | starting hrest => cases hrest
  | fetching _ _ hrest => cases hrest
  | stored _ hs => exact .inr ⟨_, fetched?_of_got _ hs, rfl⟩
  | served _ hes => exact .inl ⟨fetched?_of_length (Nat.lt_succ_of_le hes), rfl⟩

/-- Before anything was fetched, nothing is changed. -/
theorem Stage.memory_of_none (h : Stage kind url found es rest m) (hes : fetched? es = none) :
    m = found := by
  cases h with
  | stored _ hs =>
    rw [fetched?_of_got _ hs] at hes
    cases hes
  | starting | fetching | storing | served => rfl

/-! ## The history -/

/-- What is kept, by what was fetched. -/
inductive History (kind : Kind) (url : String) (s : Interleaving KeySnapshot) : Prop
  | settled (hfree : s.inside (.keys kind) = none)
      (hkept : s.memory.keys kind = .after (fetches s.events))
  | visited (i : Nat) (found : Memory) (rest : Call KeySnapshot) (before : List KeySnapshot)
      (hin : s.inside (.keys kind) = some i)
      (hc : s.calls[i]? = some (rest.onResult (leave (.keys kind))))
      (hr : (session kind url).Reaches found (own i s.events) rest s.memory)
      (hfound : found.keys kind = .after before)
      (hevents : fetches s.events = before ++ (fetched? (own i s.events)).toList)

variable {s : Interleaving KeySnapshot} {t : Turn} {i : Nat}

theorem History.step_inside {before : List KeySnapshot}
    (hin : s.inside (.keys kind) = some t.call)
    (hc : s.calls[t.call]? = some (rest.onResult (leave (.keys kind))))
    (hr : (session kind url).Reaches found (own t.call s.events) rest s.memory)
    (hfound : found.keys kind = .after before)
    (hevents : fetches s.events = before ++ (fetched? (own t.call s.events)).toList) :
    History kind url (s.step t) := by
  have ht := insideTurn (hr.only (session_gateless kind url)) hc
  generalize s.step t = s' at ht ⊢
  cases ht with
  | asks q a next h =>
    subst h
    -- Something is asked only while nothing is fetched, so no fetch is told twice.
    have hnone : fetched? (own t.call s.events) = none := (reaches_session hr).fetched?_of_ask
    have hown : own t.call (s.events ++ [(t.call, ⟨q, a⟩)]) = own t.call s.events ++ [⟨q, a⟩] := by
      rw [own_append, own_self]
    refine .visited t.call found (next a) before hin (withRest_self hc) ?_ hfound ?_
    · rw [hown]
      exact hr.trans (.ask a (.start _ _))
    · rw [hown, fetches_concat, hevents, hnone]
      simp
  | goesOn rest' m h =>
    refine .visited t.call found rest' before hin (withRest_self hc) ?_ hfound hevents
    have hr' := hr.trans h
    rwa [List.append_nil] at hr'
  | leaves r h =>
    subst h
    -- The visit ends, and what it kept joins what was kept before it.
    refine .settled (if_pos rfl) ?_
    change s.memory.keys kind = .after (fetches s.events)
    rcases (reaches_session hr).memory_of_done with ⟨hnone, hm⟩ | ⟨snapshot, hsome, hm⟩
    · rw [hm, hfound, hevents, hnone]
      simp
    · rw [hm, Memory.keys_replaceKeys, hfound, hevents, hsome]
      exact (KeyCache.after_concat before snapshot).symm

theorem History.step (hs : Sessions (.keys kind) (session kind url) s)
    (h : History kind url s) : History kind url (s.step t) := by
  cases h with
  | settled hfree hkept =>
    have ht := hs.outsideTurn (t := t) (by rw [hfree]; exact nofun)
    generalize s.step t = s' at ht ⊢
    cases ht with
    | idle => exact .settled hfree hkept
    | stops => exact .settled hfree hkept
    | letIn _ hc hown =>
      refine .visited t.call s.memory (session kind url) (fetches s.events) (if_pos rfl)
        (withRest_self hc) ?_ hkept ?_
      · change Reaches _ _ (own t.call s.events) _ _
        rw [hown]
        exact .start _ _
      · change _ = _ ++ (fetched? (own t.call s.events)).toList
        rw [hown]
        simp [fetched?, withInside, withRest]
  | visited i found rest before hin hc hr hfound hevents =>
    by_cases hi : i = t.call
    · subst hi
      exact step_inside hin hc hr hfound hevents
    have ht := hs.outsideTurn (t := t) (by rw [hin]; exact fun h => hi (Option.some.inj h))
    generalize s.step t = s' at ht ⊢
    cases ht with
    | idle => exact .visited i found rest before hin hc hr hfound hevents
    | stops =>
      exact .visited i found rest before hin ((withRest_other hi _).trans hc) hr hfound hevents
    | letIn hfree =>
      rw [hin] at hfree
      cases hfree

theorem History.run (hs : Sessions (.keys kind) (session kind url) s) (h : History kind url s)
    (ts : List Turn) : History kind url (s.run ts) := by
  induction ts generalizing s with
  | nil => exact h
  | cons t ts ih => exact ih (hs.step (session_gateless kind url) t) (h.step hs)

end PublishedKeys

end IdentityTokens
