import IdentityTokens.Proofs.Call.Bystanders
import IdentityTokens.Proofs.Keys.History

/-! # What calls for published keys keep and hand out

Any number of calls for the keys of one source, taking turns in any order, with whatever
answers and cancelled anywhere: what is kept is always what was fetched last, and each call
that is let in hands out what the cache it found and its own answers decide. -/
namespace IdentityTokens

theorem KeyCache.fresh?_eq_some_iff {c : KeyCache} {now : Int64} {s : KeySnapshot} :
    c.fresh? now = some s ↔
      c.latest = some s ∧ s.isEmpty = false ∧ now.toInt < s.expiresAt.toInt := by
  simp only [fresh?, usable?, KeySnapshot.isExpired, Option.filter_eq_some_iff, Bool.not_eq_true',
    decide_eq_false_iff_not, Int64.le_iff_toInt_le, Int.not_le, and_assoc]

/-- Where no snapshot is without keys, what is kept can be used. -/
theorem KeyCache.usable?_after {snapshots : List KeySnapshot}
    (h : ∀ s ∈ snapshots, s.isEmpty = false) :
    (KeyCache.after snapshots).usable? = (KeyCache.after snapshots).latest := by
  rw [usable?, after]
  cases hs : snapshots.getLast? with
  | none => rfl
  | some s => simp [h s (List.mem_of_getLast? hs)]

namespace PublishedKeys

open Call Interleaving

variable {kind : Kind} {url : String} {found m : Memory} {es : List Event}
  {rest : Call KeySnapshot} {s : Interleaving KeySnapshot} {t : Turn} {i : Nat}

/-! ## What one call asks and hands out -/

/-- How many requests were made. -/
def requests (es : List Event) : Nat := es.countP (·.request?.isSome)

theorem requests_le_length (es : List Event) : requests es ≤ es.length := List.countP_le_length

theorem requests_timed (now : Int64) (es : List Event) :
    requests (⟨.time, now⟩ :: es) = requests es := by
  simp [requests, Event.request?]

theorem Stage.requests_le (h : Stage kind url found es rest m) : requests es ≤ 1 := by
  cases h with
  | starting => exact Nat.zero_le 1
  | fetching _ hes =>
    rw [requests_timed]
    exact Nat.le_trans (requests_le_length _) hes
  | storing _ hs | stored _ hs =>
    cases hs
    exact Nat.le_refl 1
  | served h =>
    cases h with
    | fresh => exact Nat.zero_le 1
    | fetched _ hs =>
      cases hs
      exact Nat.le_refl 1
    | stale _ he | failed _ he =>
      rw [requests_timed]
      exact Nat.le_trans (requests_le_length _) (Nat.le_of_eq he.length)

/-- A call that found keys which were not due goes no further than the clock. -/
theorem Stage.of_fresh {now : Int64} {snapshot : KeySnapshot}
    (h : Stage kind url found (⟨.time, now⟩ :: es) rest m)
    (hf : (found.keys kind).fresh? now = some snapshot) : es = [] := by
  cases h with
  | fetching h | storing h | stored h =>
    rw [hf] at h
    cases h
  | served h =>
    cases h with
    | fresh => rfl
    | fetched h | stale h | failed h =>
      rw [hf] at h
      cases h

theorem Served.of_fresh {c : KeyCache} {now : Int64} {snapshot : KeySnapshot}
    {x : Except AuthError KeySnapshot} (h : Served url c (⟨.time, now⟩ :: es) x)
    (hf : c.fresh? now = some snapshot) : x = .ok snapshot := by
  cases h with
  | fresh h =>
    rw [hf] at h
    cases h
    rfl
  | fetched h | stale h | failed h =>
    rw [hf] at h
    cases h

theorem Stage.served_of_done {x : Except AuthError KeySnapshot}
    (h : Stage kind url found es (.done x) m) : Served url (found.keys kind) es x := by
  cases h with
  | starting hrest => cases hrest
  | fetching _ _ hrest => cases hrest
  | stored h hs => exact .fetched h hs
  | served h => exact h

theorem Served.code {c : KeyCache} {e : AuthError} (h : Served url c es (.error e)) :
    e.code = .certificateFetchFailed ∧ c.usable? = none := by
  cases h with
  | failed _ he hs => exact ⟨he.code, hs⟩

theorem stage_of_visit (h : Visit (.keys kind) (session kind url) found i s) :
    ∃ rest m, Stage kind url found (own i s.events) rest m := by
  cases h with
  | inside rest _ _ hr => exact ⟨rest, s.memory, reaches_session hr⟩
  | left r m _ _ hr => exact ⟨.done r, m, reaches_session hr⟩

/-! ## What is kept -/

/-- What is kept is what was fetched last, unless a call is just about to put that in place:
then it is what was fetched before, and the call's next turn replaces it. -/
inductive UpToDate (kind : Kind) (s : Interleaving KeySnapshot) : Prop
  | current (h : s.memory.keys kind = .after (fetches s.events))
  | replacing (i : Nat) (snapshot : KeySnapshot) (before : List KeySnapshot)
      (next : Call KeySnapshot)
      (hc : s.calls[i]? = some (.keep (Memory.replaceKeys kind snapshot) next))
      (hown : fetched? (own i s.events) = some snapshot)
      (hevents : fetches s.events = before ++ [snapshot])
      (h : s.memory.keys kind = .after before)

theorem Stage.kept {before : List KeySnapshot} (h : Stage kind url found es rest m)
    (hfound : found.keys kind = .after before) :
    m.keys kind = .after (before ++ (fetched? es).toList) ∨
      ∃ snapshot next, fetched? es = some snapshot ∧
        rest = .keep (Memory.replaceKeys kind snapshot) next ∧ m = found := by
  cases hes : fetched? es with
  | none => exact .inl (by rw [h.memory_of_none hes, hfound]; simp)
  | some snapshot =>
    cases h with
    | starting => cases hes
    | fetching _ hlen =>
      rw [fetched?_of_unanswered hlen] at hes
      cases hes
    | storing _ hs =>
      rw [fetched?_of_got _ hs] at hes
      cases hes
      exact .inr ⟨_, _, rfl, rfl, rfl⟩
    | stored _ hs =>
      rw [fetched?_of_got _ hs] at hes
      cases hes
      left
      rw [Memory.keys_replaceKeys, hfound]
      exact (KeyCache.after_concat before _).symm
    | served _ hlen =>
      rw [fetched?_of_length (Nat.lt_succ_of_le hlen)] at hes
      cases hes

theorem History.upToDate (h : History kind url s) : UpToDate kind s := by
  cases h with
  | settled _ hkept => exact .current hkept
  | visited i found rest before hin hc hr hfound hevents =>
    rcases (reaches_session hr).kept hfound with hk | ⟨snapshot, next, hown, hrest, hm⟩
    · exact .current (by rw [hk, hevents])
    · subst hrest
      rw [hown] at hevents
      exact .replacing i snapshot before _ hc hown hevents (by rw [hm, hfound])

/-- A turn of a call that has not fetched anything leaves the memory as it is. -/
theorem memory_of_unfetched (hs : Sessions (.keys kind) (session kind url) s)
    (hnone : fetched? (own t.call (s.step t).events) = none) : (s.step t).memory = s.memory := by
  by_cases hin : s.inside (.keys kind) = some t.call
  · obtain ⟨found, rest, hc, hr⟩ := hs.visit hin
    have ht := insideTurn (hr.only (session_gateless kind url)) hc
    generalize s.step t = s' at ht hnone ⊢
    cases ht with
    | asks => rfl
    | leaves => rfl
    | goesOn rest' m h =>
      have hr' := hr.trans h
      rw [List.append_nil] at hr'
      -- Before the turn and after it, the memory is still what the visit found.
      have hbefore : s.memory = found := (reaches_session hr).memory_of_none hnone
      have hafter : m = found := (reaches_session hr').memory_of_none hnone
      exact hafter.trans hbefore.symm
  · have ht := hs.outsideTurn hin
    generalize s.step t = s' at ht ⊢
    cases ht <;> rfl

theorem Stage.length_le (h : Stage kind url found es rest m) : es.length ≤ 3 := by
  cases h with
  | starting => exact Nat.zero_le 3
  | fetching _ hes => exact Nat.le_trans (Nat.succ_le_succ hes) (Nat.le_succ 2)
  | storing _ hs | stored _ hs =>
    cases hs
    exact Nat.le_refl 3
  | served _ hes => exact Nat.le_trans hes (Nat.le_succ 2)

theorem length_of_fetched {snapshot : KeySnapshot} (h : fetched? es = some snapshot) :
    es.length = 3 := by
  obtain ⟨_, _, _, _, _, _, rfl, -⟩ := of_fetched h
  rfl

/-- A call that fetches nothing to the end had fetched nothing before. -/
theorem unfetched_of_run (hs : Sessions (.keys kind) (session kind url) s)
    (hi : i < s.calls.length) (ts : List Turn)
    (hnone : fetched? (own i (s.run ts).events) = none) : fetched? (own i s.events) = none := by
  cases hsome : fetched? (own i s.events) with
  | none => rfl
  | some snapshot =>
    -- A fetch that is through is told in three events, and no call has more of them.
    have hlen : (own i s.events).length = 3 := length_of_fetched hsome
    rcases hs.stand i hi with hu | ⟨found, hv⟩
    · rw [hu.own_eq_nil] at hlen
      cases hlen
    obtain ⟨rest, m, hstage⟩ := stage_of_visit (hv.run hs (session_gateless kind url) ts)
    have hprefix : own i s.events <+: own i (s.run ts).events :=
      own_prefix i (events_run s ts)
    have heq : own i s.events = own i (s.run ts).events :=
      hprefix.eq_of_length_le (hlen ▸ hstage.length_le)
    rw [heq, hnone] at hsome
    cases hsome

/-! ## All runs -/

theorem sessions_runs (kind : Kind) (url : String) (n : Nat) (ts : List Turn) :
    Sessions (.keys kind) (session kind url) (runs (keys kind url) n ts) := by
  rw [runs, keys_eq_behind]
  exact (sessions_start _ _ .empty n).run (session_gateless kind url) ts

theorem history_runs (kind : Kind) (url : String) (n : Nat) (ts : List Turn) :
    History kind url (runs (keys kind url) n ts) := by
  rw [runs, keys_eq_behind]
  refine History.run (sessions_start _ _ .empty n) (.settled rfl ?_) ts
  cases kind <;> rfl

/-- The first time that a call which is not cancelled could come in, it comes in. -/
theorem letsIn_runs {n : Nat} {pre : List Turn} (hi : t.call < n)
    (hstays : ∀ u ∈ pre, u.call = t.call → u.stops = false)
    (hno : ∀ before u after, pre = before ++ u :: after → u.call = t.call →
      ¬ LetsIn (.keys kind) u (runs (keys kind url) n before))
    (hfree : (runs (keys kind url) n pre).inside (.keys kind) = none) (ht : t.stops = false) :
    LetsIn (.keys kind) t (runs (keys kind url) n pre) := by
  have hc : (runs (keys kind url) n []).calls[t.call]? =
      some ((session kind url).behind (.keys kind)) := by
    rw [keys_eq_behind]
    exact call_of_runs_nil hi
  have hout : (runs (keys kind url) n []).inside (.keys kind) ≠ some t.call := nofun
  exact letsIn_of_waiting (sessions_runs kind url n []) (session_gateless kind url) hout hc pre
    hstays hno hfree ht

/-- What holds of all runs of calls for the keys of one source. -/
structure KeepsLastFetch (kind : Kind) (url : String) (n : Nat) : Prop where
  current : ∀ ts, UpToDate kind (runs (keys kind url) n ts)
  /-- What is fetched is from one answer. -/
  whole : ∀ ts snapshot, snapshot ∈ fetches (runs (keys kind url) n ts).events →
    ∃ i before request response ks maxAge now,
      [⟨.time, before⟩, ⟨.exchange request, some (.answered response)⟩, ⟨.time, now⟩] <+:
        own i (runs (keys kind url) n ts).events ∧
      response.isSuccess = true ∧ KeyDocument.read response.body = .ok ks ∧
      MaxAge.ofHeader (response.header? "cache-control") = .ok maxAge ∧
      snapshot.keys = (KeySnapshot.ofKeys ks snapshot.expiresAt).keys ∧
      snapshot.expiresAt.toInt =
        min (now.toInt + min (maxAge : Int) (2 ^ 63 - 1)) (2 ^ 63 - 1)
  /-- A call that is not cancelled comes in the first time that nobody else is inside when it has
  a turn. -/
  admits : ∀ pre t, t.call < n → (∀ u ∈ pre, u.call = t.call → u.stops = false) →
    (∀ before u after, pre = before ++ u :: after → u.call = t.call →
      ¬ LetsIn (.keys kind) u (runs (keys kind url) n before)) →
    (runs (keys kind url) n pre).inside (.keys kind) = none → t.stops = false →
    LetsIn (.keys kind) t (runs (keys kind url) n pre)
  /-- No turn of a call that fetches nothing to the end changes what is remembered. -/
  unchanged : ∀ pre t post,
    fetched? (own t.call (runs (keys kind url) n (pre ++ t :: post)).events) = none →
    (runs (keys kind url) n (pre ++ [t])).memory = (runs (keys kind url) n pre).memory
  /-- What a call hands out is decided by the cache it finds and by what it is answered. -/
  served : ∀ pre t post x, LetsIn (.keys kind) t (runs (keys kind url) n pre) →
    (runs (keys kind url) n (pre ++ t :: post)).result? t.call = some x →
    Served url ((runs (keys kind url) n pre).memory.keys kind)
      (own t.call (runs (keys kind url) n (pre ++ t :: post)).events) x
  /-- A call that finds keys which are not due hands them out and asks nothing more. -/
  rests : ∀ pre t post now es snapshot, LetsIn (.keys kind) t (runs (keys kind url) n pre) →
    own t.call (runs (keys kind url) n (pre ++ t :: post)).events = ⟨.time, now⟩ :: es →
    ((runs (keys kind url) n pre).memory.keys kind).latest = some snapshot →
    snapshot.isEmpty = false → now.toInt < snapshot.expiresAt.toInt →
    es = [] ∧
      ∀ x, (runs (keys kind url) n (pre ++ t :: post)).result? t.call = some x → x = .ok snapshot
  /-- A call that was let in gets a result in six turns of its own, whoever else has turns. -/
  ends : ∀ pre t post, LetsIn (.keys kind) t (runs (keys kind url) n pre) →
    5 < post.countP (·.call = t.call) →
    ∃ x, (runs (keys kind url) n (pre ++ t :: post)).result? t.call = some x
  asksOnce : ∀ ts i, i < n → requests (own i (runs (keys kind url) n ts).events) ≤ 1
  coded : ∀ pre t post e, LetsIn (.keys kind) t (runs (keys kind url) n pre) →
    (runs (keys kind url) n (pre ++ t :: post)).result? t.call = some (.error e) →
    e.code = .certificateFetchFailed ∧
      ((runs (keys kind url) n pre).memory.keys kind).usable? = none
  /-- A call that is never let in asks nothing, and can only be cancelled. -/
  shutOut : ∀ ts i, i < n →
    (∀ pre t post, ts = pre ++ t :: post → t.call = i →
      ¬ LetsIn (.keys kind) t (runs (keys kind url) n pre)) →
    own i (runs (keys kind url) n ts).events = [] ∧
      ((runs (keys kind url) n ts).result? i = none ∨
        (runs (keys kind url) n ts).result? i = some (.error .cancelled))
  /-- Where no answer is without keys, what is kept can always be used. -/
  usable : ∀ ts, (∀ s ∈ fetches (runs (keys kind url) n ts).events, s.isEmpty = false) →
    ((runs (keys kind url) n ts).memory.keys kind).usable? =
      ((runs (keys kind url) n ts).memory.keys kind).latest

theorem visit_of_letsIn {kind : Kind} {url : String} {n : Nat} {pre : List Turn} {t : Turn}
    (post : List Turn) (h : LetsIn (.keys kind) t (runs (keys kind url) n pre)) :
    Visit (.keys kind) (session kind url) (runs (keys kind url) n pre).memory t.call
      (runs (keys kind url) n (pre ++ t :: post)) := by
  rw [runs_append_cons]
  exact h.visit (sessions_runs kind url n pre) (session_gateless kind url) post

/-- **Whatever happens to them, calls for published keys keep what was fetched last**, whole
and from one answer, and hand out what they found if it was not due; else they ask once, and
hand out what that gave, or for want of it what they found. -/
theorem keepsLastFetch (kind : Kind) (url : String) (n : Nat) : KeepsLastFetch kind url n where
  current ts := (history_runs kind url n ts).upToDate
  whole ts snapshot h := by
    obtain ⟨i, told, htold, hs⟩ := mem_fetches h
    obtain ⟨before, request, response, keys, maxAge, now, hown, hall⟩ := of_fetched hs
    refine ⟨i, before, request, response, keys, maxAge, now, ?_, hall⟩
    rw [← hown]
    exact own_prefix i htold
  admits pre t := letsIn_runs
  unchanged pre t post hnone := by
    rw [runs_concat]
    have hs := sessions_runs kind url n pre
    by_cases hlt : t.call < n
    · refine memory_of_unfetched hs ?_
      rw [runs_append_cons] at hnone
      refine unfetched_of_run (hs.step (session_gateless kind url) t) ?_ post hnone
      rwa [length_step, length_runs]
    · rw [step_none]
      rw [List.getElem?_eq_none_iff, length_runs]
      exact Nat.le_of_not_lt hlt
  served pre t post x hin hx := by
    obtain ⟨m, hr⟩ := (visit_of_letsIn post hin).of_result? hx
    exact (reaches_session hr).served_of_done
  rests pre t post now es snapshot hin hown hlatest hkeys hnow := by
    have hf : ((runs (keys kind url) n pre).memory.keys kind).fresh? now = some snapshot :=
      KeyCache.fresh?_eq_some_iff.mpr ⟨hlatest, hkeys, hnow⟩
    have hv := visit_of_letsIn post hin
    obtain ⟨rest, m, hstage⟩ := stage_of_visit hv
    rw [hown] at hstage
    refine ⟨hstage.of_fresh hf, ?_⟩
    intro x hx
    obtain ⟨m', hr⟩ := hv.of_result? hx
    rw [hown] at hr
    exact (reaches_session hr).served_of_done.of_fresh hf
  ends pre t post hin hpost := by
    have hv := visit_of_letsIn [] hin
    rw [runs_append_cons] at hv ⊢
    exact hv.ends (session_lasts kind url) post hpost
  asksOnce ts i hi := by
    have hs := sessions_runs kind url n ts
    rcases hs.stand i (by rwa [length_runs]) with h | ⟨found, h⟩
    · rw [h.own_eq_nil]
      exact Nat.zero_le 1
    · obtain ⟨rest, m, hstage⟩ := stage_of_visit h
      exact hstage.requests_le
  coded pre t post e hin he := by
    obtain ⟨m, hr⟩ := (visit_of_letsIn post hin).of_result? he
    exact (reaches_session hr).served_of_done.code
  shutOut ts i hi hno := by
    have hstart : Unvisited (.keys kind) (session kind url) i
        (start .empty (List.replicate n (keys kind url))) :=
      unvisited_start (.keys kind) (session kind url) .empty hi
    rcases hstart.run (sessions_start _ _ _ n) (session_gateless kind url) ts with
      h | ⟨pre, t, post, hts, ht, hin⟩
    · exact ⟨h.own_eq_nil, h.result?⟩
    · exact absurd hin (hno pre t post hts ht)
  usable ts hall := by
    cases (history_runs kind url n ts).upToDate with
    | current h =>
      rw [h]
      exact KeyCache.usable?_after hall
    | replacing i snapshot before next _ _ hevents h =>
      rw [h]
      refine KeyCache.usable?_after fun s hs => hall s ?_
      rw [hevents]
      exact List.mem_append_left _ hs

end PublishedKeys

end IdentityTokens
