import IdentityTokens.Proofs.Keys.Installs

/-! # One refresh at a time

Calls for the keys of one source queue up. Whoever comes in fetches if nothing that will do is in
place, and nobody else does so meanwhile; once something is in place, and as long as the clock
stands, all that come in later are content with it. A call that is cancelled in the queue is as
good as one that never was. -/
namespace IdentityTokens

/-- What only a fetch asks: its request, or whether it may go on where none can be sent. -/
def Question.isOfFetch : Question → Bool
  | .goAhead => true
  | .exchange _ => true
  | _ => false

namespace PublishedKeys

open Call Interleaving

variable {kind : Kind} {url : String} {found m : Memory} {es : List Event}
  {rest : Call KeySnapshot} {s : Interleaving KeySnapshot} {t : Turn} {i : Nat}
  {now : Int64} {snapshot : KeySnapshot}

/-- By what it was answered and what is left of it, a call has asked what only a fetch asks, or
that is what it asks next. -/
def HasAsked (es : List Event) (rest : Call KeySnapshot) : Prop :=
  (∃ e ∈ es, e.question.isOfFetch = true) ∨
    ∃ q next, rest = .ask q next ∧ q.isOfFetch = true

/-- A call has begun a fetch. -/
def Begun (s : Interleaving KeySnapshot) (i : Nat) : Prop :=
  ∃ rest, s.calls[i]? = some rest ∧ HasAsked (own i s.events) rest

/-- A snapshot is in place that has keys and is not due. -/
def InPlace (kind : Kind) (now : Int64) (snapshot : KeySnapshot)
    (s : Interleaving KeySnapshot) : Prop :=
  (s.memory.keys kind).latest = some snapshot ∧ snapshot.isEmpty = false ∧
    now.toInt < snapshot.expiresAt.toInt

/-- Everybody who reads the clock reads the same. -/
def ClockStands (now : Int64) (s : Interleaving KeySnapshot) : Prop :=
  ∀ i time, (i, ⟨.time, time⟩) ∈ s.events → time = now

theorem inPlace_iff : InPlace kind now snapshot s ↔
    (s.memory.keys kind).fresh? now = some snapshot :=
  KeyCache.fresh?_eq_some_iff.symm

theorem due_iff : (s.memory.keys kind).fresh? now = none ↔
    ¬ ∃ snapshot, InPlace kind now snapshot s := by
  rw [Option.eq_none_iff_forall_ne_some, not_exists]
  exact forall_congr' fun _ => not_congr inPlace_iff.symm

theorem ClockStands.of_own {time : Int64} (h : ClockStands now s)
    (he : ⟨.time, time⟩ ∈ own i s.events) : time = now := by
  obtain ⟨⟨j, e⟩, hmem, rfl⟩ := List.mem_map.mp he
  exact h j time (List.mem_filter.mp hmem).1

theorem ClockStands.of_run (ts : List Turn) (h : ClockStands now (s.run ts)) :
    ClockStands now s :=
  fun i time he => h i time ((events_run s ts).subset he)

/-! ## Beginning a fetch -/

/-- What is done once it is known what is kept. -/
def consult (kind : Kind) (url : String) (cache : KeyCache) : Call KeySnapshot :=
  .ask .time fun now =>
    match cache.fresh? now with
    | some s => Call.ok s
    | none => refresh kind url

theorem session_eq (kind : Kind) (url : String) :
    session kind url = .look fun m => consult kind url (m.keys kind) := rfl

/-- The ways a call can go behind the gate, by whether it has to fetch. -/
inductive Course (kind : Kind) (url : String) (found : Memory) :
    List Event → Call KeySnapshot → Memory → Prop
  | looking : Course kind url found [] (session kind url) found
  | reading : Course kind url found [] (consult kind url (found.keys kind)) found
  | content {now : Int64} {s : KeySnapshot} (h : (found.keys kind).fresh? now = some s) :
      Course kind url found [⟨.time, now⟩] (.done (.ok s)) found
  | refreshing {now : Int64} {es : List Event} {rest : Call KeySnapshot} {m : Memory}
      (h : (found.keys kind).fresh? now = none) (hr : (refresh kind url).Reaches found es rest m) :
      Course kind url found (⟨.time, now⟩ :: es) rest m

theorem reaches_course (h : (session kind url).Reaches found es rest m) :
    Course kind url found es rest m := by
  rw [session_eq] at h
  rcases reaches_look h with ⟨rfl, rfl, rfl⟩ | h₁
  · exact .looking
  rcases reaches_ask h₁ with ⟨rfl, rfl, rfl⟩ | ⟨now, es, rfl, h₂⟩
  · exact .reading
  rcases hf : (found.keys kind).fresh? now with _ | s
  all_goals rw [hf] at h₂
  · exact .refreshing hf h₂
  · obtain ⟨rfl, rfl, rfl⟩ := reaches_done h₂
    exact .content hf

/-- The first thing a refresh asks is what only a fetch asks. -/
theorem refresh_asks (kind : Kind) (url : String) :
    ∃ q next, refresh kind url = .ask q next ∧ q.isOfFetch = true := by
  rw [refresh_eq, fetch, Web.get]
  rcases Request.build .get url [] "" with fault | request
  · exact ⟨.goAhead, _, rfl, rfl⟩
  · exact ⟨.exchange request, _, rfl, rfl⟩

/-- Leaving the gate asks nothing. -/
theorem hasAsked_leave {g : Gate} : HasAsked es (rest.onResult (leave g)) ↔ HasAsked es rest := by
  refine or_congr_right ?_
  constructor
  · rintro ⟨q, next, h, hf⟩
    cases rest with
    | ask q' next' =>
      cases h
      exact ⟨q, next', rfl, hf⟩
    | done | look | keep | enter | exit => cases h
  · rintro ⟨q, next, rfl, hf⟩
    exact ⟨q, _, rfl, hf⟩

/-- Whoever has begun to fetch has found nothing that would do. -/
theorem Course.due_of_hasAsked (h : Course kind url found es rest m) (ha : HasAsked es rest) :
    ∃ now answers, es = ⟨.time, now⟩ :: answers ∧ (found.keys kind).fresh? now = none := by
  cases h with
  | refreshing h => exact ⟨_, _, rfl, h⟩
  | looking =>
    rcases ha with ⟨e, he, -⟩ | ⟨q, next, hq, -⟩
    · cases he
    · cases hq
  | reading =>
    rcases ha with ⟨e, he, -⟩ | ⟨q, next, hq, hf⟩
    · cases he
    · cases hq
      cases hf
  | content =>
    rcases ha with ⟨e, he, hf⟩ | ⟨q, next, hq, -⟩
    · cases List.mem_singleton.mp he
      cases hf
    · cases hq

theorem due_of_begun (h : Visit (.keys kind) (session kind url) found i s) (hb : Begun s i) :
    ∃ now answers, own i s.events = ⟨.time, now⟩ :: answers ∧
      (found.keys kind).fresh? now = none := by
  obtain ⟨c, hc, ha⟩ := hb
  cases h with
  | inside rest _ hrest hr =>
    rw [hrest] at hc
    cases hc
    exact (reaches_course hr).due_of_hasAsked (hasAsked_leave.mp ha)
  | left r m _ hdone hr =>
    rw [hdone] at hc
    cases hc
    exact (reaches_course hr).due_of_hasAsked ha

theorem not_begun_of_unvisited (h : Unvisited (.keys kind) (session kind url) i s) :
    ¬ Begun s i := by
  rintro ⟨c, hc, ha⟩
  have hown : own i s.events = [] := h.own_eq_nil
  rw [hown] at ha
  rcases ha with ⟨e, he, -⟩ | ⟨q, next, rfl, -⟩
  · cases he
  · cases h with
    | waiting _ hwait =>
      rw [hwait] at hc
      cases hc
    | stopped _ hstop =>
      rw [hstop] at hc
      cases hc

theorem Begun.step (h : Begun s i) (t : Turn) : Begun (s.step t) i := by
  obtain ⟨rest, hc, ha⟩ := h
  by_cases hi : i = t.call
  · subst hi
    rcases ha with ⟨e, he, hf⟩ | ⟨q, next, rfl, hf⟩
    · have hlt : t.call < (s.step t).calls.length := by
        rw [length_step]
        exact (List.getElem?_eq_some_iff.mp hc).1
      have htold : own t.call s.events <+: own t.call (s.step t).events :=
        own_prefix t.call (events_step s t)
      exact ⟨_, List.getElem?_eq_getElem hlt, .inl ⟨e, htold.subset he, hf⟩⟩
    · rw [step_ask hc]
      refine ⟨_, withRest_self hc, .inl ⟨⟨q, t.answers q⟩, ?_, hf⟩⟩
      rw [own_append, own_self]
      exact List.mem_append_right _ List.mem_cons_self
  · exact ⟨rest, (calls_step_other hi).trans hc, by rwa [own_step_other hi]⟩

theorem Begun.run (h : Begun s i) (ts : List Turn) : Begun (s.run ts) i := by
  induction ts generalizing s with
  | nil => exact h
  | cons t ts ih => exact ih (h.step t)

/-- Whoever finds nothing that will do when it reads the clock begins a fetch. -/
theorem begun_of_consult {cache : KeyCache} (hdue : cache.fresh? now = none)
    (hs : Sessions (.keys kind) (session kind url) s) (hin : s.inside (.keys kind) = some i)
    (hc : s.calls[i]? = some ((consult kind url cache).onResult (leave (.keys kind))))
    (ts : List Turn) (hclock : ClockStands now (s.run ts)) (hts : 0 < ts.countP (·.call = i)) :
    Begun (s.run ts) i := by
  obtain ⟨pre, t, post, rfl, rfl, hpre, -⟩ := exists_turn hts
  have hstill := standsStill_run hs (session_gateless kind url) hin pre hpre
  have hcalls := hstill.calls.trans hc
  rw [run_append] at hclock ⊢
  have hread := step_ask hcalls
  have htime : t.answers .time = now := by
    refine (hclock.of_run post (s := (s.run pre).step t)) t.call _ ?_
    rw [hread]
    exact List.mem_append_right _ List.mem_cons_self
  refine Begun.run (s := (s.run pre).step t) ?_ post
  obtain ⟨q, next, hq, hf⟩ := refresh_asks kind url
  refine ⟨(refresh kind url).onResult (leave (.keys kind)), ?_, ?_⟩
  · rw [hread, htime]
    simp only [hdue]
    exact withRest_self hcalls
  · rw [hasAsked_leave]
    exact .inr ⟨q, next, hq, hf⟩

/-- Whoever comes in while nothing will do needs two turns to begin a fetch. -/
theorem begun_of_due (hs : Sessions (.keys kind) (session kind url) s)
    (hin : s.inside (.keys kind) = some i)
    (hc : s.calls[i]? = some ((session kind url).onResult (leave (.keys kind))))
    (hdue : (s.memory.keys kind).fresh? now = none) (ts : List Turn)
    (hclock : ClockStands now (s.run ts)) (hts : 1 < ts.countP (·.call = i)) :
    Begun (s.run ts) i := by
  obtain ⟨pre, t, post, rfl, rfl, hpre, hcount⟩ := exists_turn (Nat.lt_of_succ_lt hts)
  rw [← hcount] at hts
  have hb : (session kind url).Only Deed.Gateless := session_gateless kind url
  have hstill := standsStill_run hs hb hin pre hpre
  have hcalls := hstill.calls.trans hc
  have hlook : (s.run pre).step t = (s.run pre).withRest t.call
      ((consult kind url ((s.run pre).memory.keys kind)).onResult (leave (.keys kind))) :=
    step_look hcalls
  rw [run_append] at hclock ⊢
  refine begun_of_consult hdue ((hs.run hb pre).step hb t) ?_ ?_ post hclock
    (Nat.lt_of_succ_lt_succ hts)
  · rw [hlook]
    exact hstill.inside
  · rw [hlook, ← hstill.memory]
    exact withRest_self hcalls

/-! ## What is in place stays there -/

/-- What is in place and not due when the clock stands is not replaced. -/
theorem InPlace.memory_step (hs : Sessions (.keys kind) (session kind url) s)
    (h : InPlace kind now snapshot s) (hclock : ClockStands now s) (t : Turn) :
    (s.step t).memory = s.memory := by
  rcases PublishedKeys.memory_step hs t with hm | ⟨fetched, hi⟩
  · exact hm
  obtain ⟨time, answers, hown, hdue⟩ := hi.due
  have htime : time = now := hclock.of_own (i := t.call) (by rw [hown]; exact List.mem_cons_self)
  rw [htime, inPlace_iff.mp h] at hdue
  cases hdue

theorem InPlace.of_memory {s' : Interleaving KeySnapshot} (h : InPlace kind now snapshot s)
    (hm : s'.memory = s.memory) : InPlace kind now snapshot s' := by
  rw [InPlace, hm]
  exact h

theorem InPlace.memory_run (hs : Sessions (.keys kind) (session kind url) s)
    (h : InPlace kind now snapshot s) (ts : List Turn) (hclock : ClockStands now (s.run ts)) :
    (s.run ts).memory = s.memory := by
  induction ts generalizing s with
  | nil => rfl
  | cons t ts ih =>
    have hm : (s.step t).memory = s.memory := h.memory_step hs (hclock.of_run (t :: ts)) t
    exact (ih (hs.step (session_gateless kind url) t) (h.of_memory hm) hclock).trans hm

theorem begun_of_fetched (hi : i < s.calls.length)
    (h : fetched? (own i s.events) = some snapshot) : Begun s i := by
  obtain ⟨before, request, response, keys, maxAge, now, hown, -⟩ := of_fetched h
  refine ⟨s.calls[i], List.getElem?_eq_getElem hi, .inl ?_⟩
  rw [hown]
  exact ⟨_, List.mem_cons_of_mem _ List.mem_cons_self, rfl⟩

/-- Nobody who has not begun a fetch before begins one while something is in place. -/
theorem InPlace.begun_step (hs : Sessions (.keys kind) (session kind url) s)
    (h : InPlace kind now snapshot s) (hclock : ClockStands now (s.step t))
    (hb : Begun (s.step t) i) : Begun s i := by
  by_cases hi : i = t.call
  · subst hi
    by_contra hno
    have hlt : t.call < s.calls.length := by
      obtain ⟨rest, hc, -⟩ := hb
      rw [← length_step s t]
      exact (List.getElem?_eq_some_iff.mp hc).1
    -- What a fetch that begins now finds is what is in place, and that will do.
    have hfresh : (s.memory.keys kind).fresh? now = some snapshot := inPlace_iff.mp h
    have habsurd : ∀ found, Visit (.keys kind) (session kind url) found t.call (s.step t) →
        found = s.memory → False := by
      rintro found hv rfl
      obtain ⟨time, answers, hown, hdue⟩ := due_of_begun hv hb
      have htime : time = now :=
        hclock.of_own (i := t.call) (by rw [hown]; exact List.mem_cons_self)
      rw [htime, hfresh] at hdue
      cases hdue
    rcases hs.stand t.call hlt with hu | ⟨found, hv⟩
    · rcases hu.step hs (session_gateless kind url) with hu' | ⟨-, -, hv⟩
      · exact not_begun_of_unvisited hu' hb
      · exact habsurd s.memory hv rfl
    · have hnone : fetched? (own t.call s.events) = none := by
        rw [Option.eq_none_iff_forall_ne_some]
        exact fun fetched hf => hno (begun_of_fetched hlt hf)
      refine habsurd found (hv.step hs (session_gateless kind url)) ?_
      cases hv with
      | inside rest hin hc hr => exact ((reaches_session hr).memory_of_none hnone).symm
      | left r m hout hc hr =>
        rw [step_done hc] at hb
        exact absurd hb hno
  · obtain ⟨rest, hc, ha⟩ := hb
    rw [calls_step_other hi] at hc
    rw [own_step_other hi] at ha
    exact ⟨rest, hc, ha⟩

theorem InPlace.begun_run (hs : Sessions (.keys kind) (session kind url) s)
    (h : InPlace kind now snapshot s) (ts : List Turn) (hclock : ClockStands now (s.run ts))
    (hb : Begun (s.run ts) i) : Begun s i := by
  induction ts generalizing s with
  | nil => exact hb
  | cons t ts ih =>
    have hstep : ClockStands now (s.step t) := ClockStands.of_run ts hclock
    have hm : (s.step t).memory = s.memory := h.memory_step hs (hclock.of_run (t :: ts)) t
    have hb' : Begun (s.step t) i :=
      ih (hs.step (session_gateless kind url) t) (h.of_memory hm) hclock hb
    exact h.begun_step hs hstep hb'

/-! ## What the others hand out then -/

/-- The clock is the first thing that is read, and a call that ends has read it. -/
theorem Served.exists_time {c : KeyCache} {x : Except AuthError KeySnapshot}
    (h : Served url c es x) : ∃ time answers, es = ⟨.time, time⟩ :: answers := by
  cases h <;> exact ⟨_, _, rfl⟩

/-- Whoever has found what is in place hands it out. -/
theorem handsOut_of_found {c : KeyCache} {x : Except AuthError KeySnapshot}
    (hclock : ClockStands now s) (h : Served url c (own i s.events) x)
    (hfresh : c.fresh? now = some snapshot) : x = .ok snapshot := by
  obtain ⟨time, answers, hown⟩ := h.exists_time
  have htime : time = now := hclock.of_own (i := i) (by rw [hown]; exact List.mem_cons_self)
  rw [hown, htime] at h
  exact h.of_fresh hfresh

/-- Whoever is inside while something is in place hands it out: it found it, or has put it
there. -/
theorem InPlace.handsOut_inside (hs : Sessions (.keys kind) (session kind url) s)
    (h : InPlace kind now snapshot s) (hin : s.inside (.keys kind) = some i) (ts : List Turn)
    (hclock : ClockStands now (s.run ts)) {x : Except AuthError KeySnapshot}
    (hx : (s.run ts).result? i = some x) : x = .ok snapshot := by
  have hb : (session kind url).Only Deed.Gateless := session_gateless kind url
  obtain ⟨found, rest, hc, hr⟩ := hs.visit hin
  have hv : Visit (.keys kind) (session kind url) found i (s.run ts) :=
    Visit.run hs hb (.inside rest hin hc hr) ts
  obtain ⟨m, hend⟩ := hv.of_result? hx
  have hserved : Served url (found.keys kind) (own i (s.run ts).events) x :=
    (reaches_session hend).served_of_done
  have hfresh : (s.memory.keys kind).fresh? now = some snapshot := inPlace_iff.mp h
  cases hes : fetched? (own i s.events) with
  | none =>
    have hfound : s.memory = found := (reaches_session hr).memory_of_none hes
    rw [hfound] at hfresh
    exact handsOut_of_found hclock hserved hfresh
  | some fetched =>
    obtain ⟨⟨time, answers, hown, hdue⟩, ⟨hm, -⟩ | ⟨hm, hrest⟩⟩ :=
      (reaches_session hr).memory_of_some hes
    · have htime : time = now :=
        (hclock.of_run ts).of_own (i := i) (by rw [hown]; exact List.mem_cons_self)
      rw [← hm, htime, hfresh] at hdue
      cases hdue
    · have hput : fetched = snapshot := by
        have hlatest := h.1
        rw [hm, Memory.keys_replaceKeys] at hlatest
        exact Option.some.inj hlatest
      -- Three events tell of a fetch, and there are no more of a call that is through.
      have htold : own i s.events <+: own i (s.run ts).events := own_prefix i (events_run s ts)
      have hlen : (own i s.events).length = 3 := length_of_fetched hes
      have hsame : own i s.events = own i (s.run ts).events :=
        htold.eq_of_length_le (hlen ▸ (reaches_session hend).length_le)
      rw [hsame] at hes
      obtain ⟨-, ⟨-, hno⟩ | ⟨-, hdone⟩⟩ := (reaches_session hend).memory_of_some hes
      · exact absurd rfl (hno x)
      · rw [← hput]
        exact Call.done.inj hdone

/-- Whoever comes in while something is in place hands it out. -/
theorem InPlace.handsOut_letsIn (hs : Sessions (.keys kind) (session kind url) s)
    (h : InPlace kind now snapshot s) (hin : LetsIn (.keys kind) t s) (ts : List Turn)
    (hclock : ClockStands now ((s.step t).run ts)) {x : Except AuthError KeySnapshot}
    (hx : ((s.step t).run ts).result? t.call = some x) : x = .ok snapshot := by
  obtain ⟨m, hend⟩ := (hin.visit hs (session_gateless kind url) ts).of_result? hx
  exact handsOut_of_found hclock (reaches_session hend).served_of_done (inPlace_iff.mp h)

/-- Whoever has not handed anything out yet hands out what is in place, unless it is cancelled
where it waits. -/
theorem InPlace.handsOut (hs : Sessions (.keys kind) (session kind url) s)
    (h : InPlace kind now snapshot s) (hi : i < s.calls.length) (hnone : s.result? i = none)
    (ts : List Turn) (hclock : ClockStands now (s.run ts))
    (hstays : ∀ t ∈ ts, t.call = i → t.stops = false) {x : Except AuthError KeySnapshot}
    (hx : (s.run ts).result? i = some x) : x = .ok snapshot := by
  have hb : (session kind url).Only Deed.Gateless := session_gateless kind url
  rcases hs.stand i hi with (⟨hout, hc, -⟩ | ⟨-, hc, -⟩) | ⟨found, ⟨rest, hin⟩ | ⟨r, m, -, hc⟩⟩
  · rcases waits_or_letsIn hs hb hout hc ts hstays with hw | ⟨pre, t, post, rfl, rfl, hin⟩
    · rw [hw] at hx
      cases hx
    rw [run_append] at hclock hx
    have hm : (s.run pre).memory = s.memory :=
      h.memory_run hs pre (ClockStands.of_run (t :: post) hclock)
    exact (h.of_memory hm).handsOut_letsIn (hs.run hb pre) hin post hclock hx
  · rw [result?_of_done hc] at hnone
    cases hnone
  · exact h.handsOut_inside hs hin ts hclock hx
  · rw [result?_of_done hc] at hnone
    cases hnone

/-! ## All runs -/

/-- A call has begun a fetch and handed nothing out yet. -/
def Fetches (s : Interleaving KeySnapshot) (i : Nat) : Prop := Begun s i ∧ s.result? i = none

theorem inside_of_fetches (hs : Sessions (.keys kind) (session kind url) s) (h : Fetches s i) :
    s.inside (.keys kind) = some i := by
  obtain ⟨⟨rest, hc, ha⟩, hnone⟩ := h
  rcases hs.stand i (List.getElem?_eq_some_iff.mp hc).1 with hu | ⟨found, ⟨-, hin⟩ | ⟨r, m, -, hd⟩⟩
  · exact absurd ⟨rest, hc, ha⟩ (not_begun_of_unvisited hu)
  · exact hin
  · rw [result?_of_done hd] at hnone
    cases hnone

/-- A call that is cancelled where it waits was never let in. -/
theorem not_letsIn_of_cancelled {n : Nat} {ts : List Turn}
    (hx : (runs (keys kind url) n ts).result? i = some (.error .cancelled))
    (pre : List Turn) (t : Turn) (post : List Turn) (hts : ts = pre ++ t :: post)
    (hi : t.call = i) : ¬ LetsIn (.keys kind) t (runs (keys kind url) n pre) := by
  subst hts hi
  intro hin
  obtain ⟨m, hr⟩ := (visit_of_letsIn post hin).of_result? hx
  have hcode : AuthError.cancelled.code = .certificateFetchFailed :=
    (reaches_session hr).served_of_done.code.1
  cases hcode

theorem sameBut_runs {n : Nat} {ts : List Turn} (hi : i < n)
    (hx : (runs (keys kind url) n ts).result? i = some (.error .cancelled)) :
    SameBut i (runs (keys kind url) n ts) (runs (keys kind url) n (ts.filter (·.call ≠ i))) := by
  have hno := not_letsIn_of_cancelled hx
  rw [runs, runs, keys_eq_behind]
  exact Unvisited.sameBut_run (sessions_start _ _ .empty n) (session_gateless kind url)
    (unvisited_start _ _ .empty hi) (.refl i _) ts hno

/-- What holds of all runs of calls for the keys of one source, as to who fetches. -/
structure SingleRefresh (kind : Kind) (url : String) (n : Nat) : Prop where
  /-- No two calls fetch at one time. -/
  alone : ∀ ts i j, Fetches (runs (keys kind url) n ts) i →
    Fetches (runs (keys kind url) n ts) j → i = j
  /-- A call that is not cancelled comes in the first time that nobody else is inside when it has
  a turn. -/
  admits : ∀ pre t, t.call < n → (∀ u ∈ pre, u.call = t.call → u.stops = false) →
    (∀ before u after, pre = before ++ u :: after → u.call = t.call →
      ¬ LetsIn (.keys kind) u (runs (keys kind url) n before)) →
    (runs (keys kind url) n pre).inside (.keys kind) = none → t.stops = false →
    LetsIn (.keys kind) t (runs (keys kind url) n pre)
  /-- Only a call that was let in begins to fetch. -/
  waits : ∀ ts i, Begun (runs (keys kind url) n ts) i →
    ∃ pre t post, ts = pre ++ t :: post ∧ t.call = i ∧
      LetsIn (.keys kind) t (runs (keys kind url) n pre)
  /-- A call that is let in begins to fetch, in two turns of its own, exactly if nothing is in
  place then. -/
  begins : ∀ pre t post now, LetsIn (.keys kind) t (runs (keys kind url) n pre) →
    ClockStands now (runs (keys kind url) n (pre ++ t :: post)) →
    (Begun (runs (keys kind url) n (pre ++ t :: post)) t.call →
      ¬ ∃ snapshot, InPlace kind now snapshot (runs (keys kind url) n pre)) ∧
    ((¬ ∃ snapshot, InPlace kind now snapshot (runs (keys kind url) n pre)) →
      1 < post.countP (·.call = t.call) → Begun (runs (keys kind url) n (pre ++ t :: post)) t.call)
  /-- Once something is in place it stays there, nobody else begins to fetch, and whoever has
  not handed anything out yet hands out just that, unless it is cancelled where it waits. -/
  settles : ∀ pre post now snapshot, InPlace kind now snapshot (runs (keys kind url) n pre) →
    ClockStands now (runs (keys kind url) n (pre ++ post)) →
    (runs (keys kind url) n (pre ++ post)).memory = (runs (keys kind url) n pre).memory ∧
    (∀ i, Begun (runs (keys kind url) n (pre ++ post)) i → Begun (runs (keys kind url) n pre) i) ∧
    ∀ i x, i < n → (runs (keys kind url) n pre).result? i = none →
      (∀ t ∈ post, t.call = i → t.stops = false) →
      (runs (keys kind url) n (pre ++ post)).result? i = some x → x = .ok snapshot
  /-- Nobody waits in vain: whose turn it is while nobody is inside comes in, and has a result
  in six turns of its own. -/
  ends : ∀ pre t post, t.call < n → (runs (keys kind url) n pre).result? t.call = none →
    (runs (keys kind url) n pre).inside (.keys kind) = none → t.stops = false →
    LetsIn (.keys kind) t (runs (keys kind url) n pre) ∧
      (5 < post.countP (·.call = t.call) →
        ∃ x, (runs (keys kind url) n (pre ++ t :: post)).result? t.call = some x)
  stops : ∀ ts t, t.call < n → (runs (keys kind url) n ts).result? t.call = none →
    (runs (keys kind url) n ts).inside (.keys kind) ≠ some t.call → t.stops = true →
    (runs (keys kind url) n (ts ++ [t])).result? t.call = some (.error .cancelled)
  /-- A call that is cancelled where it waits asks nothing, and all else goes as if it had no
  turns. -/
  cancelled : ∀ ts i, i < n → (runs (keys kind url) n ts).result? i = some (.error .cancelled) →
    own i (runs (keys kind url) n ts).events = [] ∧ ¬ Begun (runs (keys kind url) n ts) i ∧
      SameBut i (runs (keys kind url) n ts) (runs (keys kind url) n (ts.filter (·.call ≠ i)))

theorem unvisited_runs {n : Nat} (hi : i < n) (ts : List Turn) :
    Unvisited (.keys kind) (session kind url) i (runs (keys kind url) n ts) ∨
      ∃ pre t post, ts = pre ++ t :: post ∧ t.call = i ∧
        LetsIn (.keys kind) t (runs (keys kind url) n pre) := by
  rw [runs, keys_eq_behind]
  exact (unvisited_start _ _ .empty hi).run (sessions_start _ _ .empty n)
    (session_gateless kind url) ts

/-- **Calls for the keys of one source share a refresh**, whoever has turns when, whatever is
answered and whoever is cancelled. -/
theorem singleRefresh (kind : Kind) (url : String) (n : Nat) : SingleRefresh kind url n where
  alone ts i j hi hj := by
    have hs := sessions_runs kind url n ts
    have hinside := inside_of_fetches hs hi
    rw [inside_of_fetches hs hj] at hinside
    exact (Option.some.inj hinside).symm
  admits pre t := letsIn_runs
  waits ts i hb := by
    have hi : i < n := by
      obtain ⟨rest, hc, -⟩ := hb
      exact lt_of_call hc
    rcases unvisited_runs hi ts with hu | hin
    · exact absurd hb (not_begun_of_unvisited hu)
    · exact hin
  begins pre t post now hin hclock := by
    have hs := sessions_runs kind url n pre
    rw [← due_iff]
    constructor
    · intro hb
      obtain ⟨time, answers, hown, hdue⟩ := due_of_begun (visit_of_letsIn post hin) hb
      have htime : time = now :=
        hclock.of_own (i := t.call) (by rw [hown]; exact List.mem_cons_self)
      rwa [htime] at hdue
    · intro hdue hts
      rw [runs_append_cons] at hclock ⊢
      obtain ⟨hc, hstep⟩ := hin.step_eq hs
      refine begun_of_due (hs.step (session_gateless kind url) t) hin.2 ?_ ?_ post hclock hts
      · rw [hstep]
        exact withRest_self hc
      · rw [hstep]
        exact hdue
  settles pre post now snapshot h hclock := by
    have hs := sessions_runs kind url n pre
    rw [runs_append] at hclock ⊢
    refine ⟨h.memory_run hs post hclock, fun i => h.begun_run hs post hclock, ?_⟩
    intro i x hi hnone hstays hx
    refine h.handsOut hs ?_ hnone post hclock hstays hx
    rwa [length_runs]
  ends pre t post hlt hnone hfree hstays := by
    have hs := sessions_runs kind url n pre
    have hin : LetsIn (.keys kind) t (runs (keys kind url) n pre) := by
      refine letsIn_of_free hs ?_ hnone hfree hstays
      rwa [length_runs]
    refine ⟨hin, ?_⟩
    intro hts
    rw [runs_append_cons]
    exact (hin.visit hs (session_gateless kind url) []).ends (session_lasts kind url) post hts
  stops ts t hlt hnone hout hstops := by
    rw [runs_concat]
    refine cancelled_of_stops (sessions_runs kind url n ts) ?_ hnone hout hstops rfl
    rwa [length_runs]
  cancelled ts i hi hx := by
    have hno := not_letsIn_of_cancelled hx
    rcases unvisited_runs hi ts with hu | ⟨pre, t, post, hts, hcall, hin⟩
    · exact ⟨hu.own_eq_nil, not_begun_of_unvisited hu, sameBut_runs hi hx⟩
    · exact absurd hin (hno pre t post hts hcall)

end PublishedKeys

end IdentityTokens
