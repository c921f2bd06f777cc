import IdentityTokens.Proofs.Keys.FirstReading

/-! # Stored keys are read once

What holds of all runs of calls for the keys of one file: when the file is read and when no more,
what is kept and when, what each call comes to, and what becomes of those that are cancelled. -/
namespace IdentityTokens.StoredKeys

open Call Interleaving

variable {kind : Kind} {path : String} {n : Nat} {pre post ts : List Turn} {t : Turn} {i j : Nat}
  {S : Interleaving KeySnapshot} {s : KeySnapshot} {e : Event}
  {a : Option (Except FileFault Bytes)}

/-! ## On the way to the file and back -/

/-- A call asks first of all whether it may go on, and nothing else comes of that turn. -/
theorem step_fresh (hc : S.calls[t.call]? = some (keys kind path)) :
    S.step t = { S.withRest t.call (match t.answers .goAhead with
        | none => Call.fail .cancelled
        | some () => consult kind path) with
      events := S.events ++ [(t.call, ⟨.goAhead, t.answers .goAhead⟩)] } := by
  rw [keys_eq] at hc
  exact step_ask hc

/-- How far a call got, by what is left of it. -/
inductive Way (kind : Kind) (path : String) (i : Nat) (S : Interleaving KeySnapshot) : Prop
  | fresh (hout : S.inside (.keys kind) ≠ some i) (hc : S.calls[i]? = some (keys kind path))
  | consults (hout : S.inside (.keys kind) ≠ some i) (hc : S.calls[i]? = some (consult kind path))
  | waits (hout : S.inside (.keys kind) ≠ some i)
      (hc : S.calls[i]? = some ((load kind path).behind (.keys kind)))
  | inside {rest : Call KeySnapshot} (hc : S.calls[i]? = some (rest.onResult (leave (.keys kind))))
      (hl : rest.Lasts 3)
  | through {r : Except AuthError KeySnapshot} (hout : S.inside (.keys kind) ≠ some i)
      (hc : S.calls[i]? = some (.done r))

theorem Way.step_self (h : Way kind path t.call S) : Way kind path t.call (S.step t) := by
  cases h with
  | fresh hout hc =>
    rw [step_fresh hc]
    generalize t.answers .goAhead = a
    cases a with
    | none => exact .through hout (withRest_self hc)
    | some => exact .consults hout (withRest_self hc)
  | consults hout hc =>
    rw [step_look hc]
    rcases (S.memory.keys kind).latest with _ | s
    · exact .waits hout (withRest_self hc)
    · exact .through hout (withRest_self hc)
  | waits hout hc =>
    rw [step_enter hc]
    split
    · exact .through hout (withRest_self hc)
    · split
      · refine .inside ?_ (load_lasts kind path)
        exact withRest_self hc
      · exact .waits hout hc
  | inside hc hl =>
    cases hl with
    | done r =>
      rw [step_exit hc]
      refine .through ?_ (withRest_self hc)
      simp [withInside]
    | ask h =>
      rw [step_ask hc]
      exact .inside (withRest_self hc) ((h _).mono (Nat.le_succ 2))
    | look h =>
      rw [step_look hc]
      exact .inside (withRest_self hc) ((h _).mono (Nat.le_succ 2))
    | keep h =>
      rw [step_keep hc]
      exact .inside (withRest_self hc) (h.mono (Nat.le_succ 2))
  | through hout hc =>
    rw [step_done hc]
    exact .through hout hc

theorem Way.step (hS : Keeping kind path S) (h : Way kind path i S) (t : Turn) :
    Way kind path i (S.step t) := by
  by_cases hi : i = t.call
  · subst hi
    exact h.step_self
  have hinside := not_congr (inside_step_other hS hi)
  cases h with
  | fresh hout hc => exact .fresh (hinside.mpr hout) ((calls_step_other hi).trans hc)
  | consults hout hc => exact .consults (hinside.mpr hout) ((calls_step_other hi).trans hc)
  | waits hout hc => exact .waits (hinside.mpr hout) ((calls_step_other hi).trans hc)
  | inside hc hl => exact .inside ((calls_step_other hi).trans hc) hl
  | through hout hc => exact .through (hinside.mpr hout) ((calls_step_other hi).trans hc)

theorem runs_way (kind : Kind) (path : String) (hi : i < n) (ts : List Turn) :
    Way kind path i (runs (keys kind path) n ts) := by
  induction ts using List.reverseRecOn with
  | nil => exact .fresh nofun (call_of_runs_nil hi)
  | append_singleton ts t ih =>
    rw [runs_concat]
    exact ih.step (runs_keeping kind path n ts) t

/-- Only calls that were made are ever inside, or have a result. -/
theorem lt_of_inside (hin : (runs (keys kind path) n ts).inside (.keys kind) = some i) : i < n := by
  refine Nat.lt_of_not_le fun hge => ?_
  induction ts using List.reverseRecOn with
  | nil => cases hin
  | append_singleton ts t ih =>
    rw [runs_concat] at hin
    by_cases hi : i = t.call
    · subst hi
      rw [step_none (List.getElem?_eq_none (length_runs.trans_le hge))] at hin
      exact ih hin
    · exact ih ((inside_step_other (runs_keeping kind path n ts) hi).mp hin)

theorem ends_of_inside_runs (hin : (runs (keys kind path) n pre).inside (.keys kind) = some i)
    (hpost : 3 < post.countP (·.call = i)) :
    ∃ r, (runs (keys kind path) n (pre ++ post)).result? i = some r := by
  rw [runs_append]
  cases runs_way kind path (lt_of_inside hin) pre with
  | fresh hout | consults hout | waits hout | through hout => exact absurd hin hout
  | inside hc hl => exact ends_of_inside hl hc post hpost

/-! ## Who changes what is kept -/

theorem memory_step_eq (hS : Keeping kind path S)
    (hno : ∀ e ∈ own t.call S.events, ∀ s, ¬ Gives path s e) :
    (S.step t).memory = S.memory := by
  cases oneTurn hS t with
  | quiet hm | begins _ _ hm | reads _ _ _ _ hm | leaves _ _ hm => exact hm
  | keeps a s hin hown ho =>
    refine absurd (gives_reading.mpr ho) (hno _ ?_ s)
    rw [hown]
    simp

/-- Whoever got no keys from the file in a run has kept nothing in it. -/
theorem unchanged_of_not_gives
    (hno : ∀ e ∈ own i (runs (keys kind path) n ts).events, ∀ s, ¬ Gives path s e)
    (hts : ts = pre ++ t :: post) (hi : t.call = i) :
    (runs (keys kind path) n (pre ++ [t])).memory = (runs (keys kind path) n pre).memory := by
  subst hts hi
  have hearlier := own_prefix t.call (events_run (runs (keys kind path) n pre) (t :: post))
  rw [runs_append] at hno
  rw [runs_concat]
  exact memory_step_eq (runs_keeping kind path n pre) fun e he => hno e (hearlier.subset he)

theorem changes_runs (kind : Kind) (path : String) (n : Nat) (ts : List Turn) (t : Turn) :
    (runs (keys kind path) n (ts ++ [t])).memory = (runs (keys kind path) n ts).memory ∨
      (runs (keys kind path) n ts).memory = .empty ∧
        ∃ e s, e ∈ own t.call (runs (keys kind path) n ts).events ∧ Gives path s e ∧
        (runs (keys kind path) n (ts ++ [t])).memory = Memory.empty.replaceKeys kind s := by
  rw [runs_concat]
  cases oneTurn (runs_keeping kind path n ts) t with
  | quiet hm | begins _ _ hm | reads _ _ _ _ hm | leaves _ _ hm => exact .inl hm
  | keeps a s hin hown ho hnone hm =>
    have hmem : reading path a ∈ own t.call (runs (keys kind path) n ts).events := by
      rw [hown]
      simp
    have hgives := gives_reading.mpr ho
    rcases (firstRead_of_gives (mem_own.mp hmem) hgives).kept with ⟨-, hempty⟩ | hkept
    · exact .inr ⟨hempty, _, s, hmem, hgives, hempty ▸ hm⟩
    · rw [hkept, latest_replaceKeys] at hnone
      cases hnone

/-! ## The first turn -/

theorem cancelled_of_refused (hc : S.calls[t.call]? = some (keys kind path))
    (ha : t.answers .goAhead = none) : (S.step t).result? t.call = some (.error .cancelled) := by
  refine result?_of_done ?_
  rw [step_fresh hc, ha]
  exact withRest_self hc

/-- Whoever comes to keys was told that it may go on, and found what somebody read. -/
theorem given_runs (hr : (runs (keys kind path) n ts).result? i = some (.ok s)) :
    (∃ told, own i (runs (keys kind path) n ts).events = granted :: told) ∧
      ∃ j e, (j, e) ∈ (runs (keys kind path) n ts).events ∧ Gives path s e := by
  obtain ⟨x, hx, -, hending⟩ := (runs_keeping kind path n ts).result hr
  rw [← hx.told]
  generalize hresult : (Except.ok s : Except AuthError KeySnapshot) = result at hending
  cases hending with
  | refused | stopped => cases hresult
  | found htold hkept =>
    cases hresult
    refine ⟨⟨[], htold⟩, ?_⟩
    rw [← memory_of_kept hx hkept] at hkept
    cases runs_phase kind path n ts with
    | unread _ hm =>
      rw [hm, latest_empty] at hkept
      cases hkept
    | read h =>
      cases h.latest hkept
      exact ⟨_, _, h.mem, h.gives⟩
  | read a htold =>
    refine ⟨⟨_, htold⟩, i, reading path a, ?_, gives_reading.mpr hresult.symm⟩
    rw [← mem_own, ← hx.told, htold]
    simp

/-! ## Calls that are not cancelled -/

theorem result_ne_cancelled (hts : Uncancelled i (runs (keys kind path) n []) ts)
    {r : Except AuthError KeySnapshot} (hr : (runs (keys kind path) n ts).result? i = some r) :
    r ≠ .error .cancelled := by
  obtain ⟨c, hc⟩ := exists_call_of_result? hr []
  have havoids := keys_avoids kind path
  rw [← eq_of_runs_nil hc] at havoids
  exact not_bad_of_uncancelled havoids hc ts hts hr

/-- Whoever fails without being cancelled was told of a file that holds no keys. -/
theorem fails_runs {error : AuthError} (hts : Uncancelled i (runs (keys kind path) n []) ts)
    (hr : (runs (keys kind path) n ts).result? i = some (.error error)) :
    ∃ answer, own i (runs (keys kind path) n ts).events = [granted, reading path (some answer)] ∧
      outcome path (some answer) = .error error ∧ error.code = .certificateFetchFailed := by
  have hcancelled := result_ne_cancelled hts hr
  obtain ⟨x, hx, -, hending⟩ := (runs_keeping kind path n ts).result hr
  generalize hresult : (Except.error error : Except AuthError KeySnapshot) = result at *
  cases hending with
  | refused | stopped => exact absurd rfl hcancelled
  | found => cases hresult
  | read a htold =>
    rcases outcome_eq_error hresult.symm with ⟨rfl, rfl⟩ | ⟨ha, message, rfl⟩
    · exact absurd hresult.symm hcancelled
    · obtain ⟨answer, rfl⟩ := Option.ne_none_iff_exists'.mp ha
      exact ⟨answer, hx.told.symm.trans htold, rfl, rfl⟩

/-- After the first reading, whoever was not through yet and is not cancelled comes to what the
first one got. -/
theorem FirstRead.result (h : FirstRead kind path i s e (runs (keys kind path) n pre))
    (hnone : (runs (keys kind path) n pre).result? j = none)
    (hts : Uncancelled j (runs (keys kind path) n []) (pre ++ post))
    {r : Except AuthError KeySnapshot}
    (hr : (runs (keys kind path) n (pre ++ post)).result? j = some r) : r = .ok s := by
  have hS := runs_keeping kind path n pre
  have hafter : FirstRead kind path i s e (runs (keys kind path) n (pre ++ post)) := by
    rw [runs_append]
    exact (h.run hS post).1
  cases r with
  | ok s' =>
    obtain ⟨x, hx, -, hending⟩ := (runs_keeping kind path n (pre ++ post)).result hr
    have hkept : (x.memory.keys kind).latest = some s' := by
      generalize hresult : (Except.ok s' : Except AuthError KeySnapshot) = result at hending
      cases hending with
      | refused | stopped => cases hresult
      | found _ hkept =>
        cases hresult
        exact hkept
      | read a _ hkept => exact hkept s' hresult.symm
    rw [← memory_of_kept hx hkept] at hkept
    rw [hafter.latest hkept]
  | error error =>
    obtain ⟨answer, hown, ho, -⟩ := fails_runs hts hr
    -- It had read the file before, and was inside with nothing kept: the first one was there too.
    rw [runs_append] at hown
    have hbefore := (h.run hS post).2.own_eq hown
    obtain ⟨c, hc⟩ := exists_call_of_result? hr pre
    rcases inside_or_ended hS hc hbefore with ⟨hin, hlatest | ⟨s', hs'⟩⟩ | hended
    · rcases h.kept with ⟨hin', -⟩ | hm
      · obtain rfl : i = j := Option.some.inj (hin'.symm.trans hin)
        cases h.told.symm.trans hbefore
        cases ho.symm.trans (gives_reading.mp h.gives)
      · rw [hm, latest_replaceKeys] at hlatest
        cases hlatest
    · cases ho.symm.trans hs'
    · cases hnone.symm.trans hended

/-! ## Cancelled calls -/

theorem told_of_cancels (hS : Keeping kind path S) (ht : Cancels t S) :
    own t.call S.events = [] ∨ own t.call S.events = [granted] := by
  cases ht with
  | asked q next hc =>
    obtain ⟨x, hx, habides⟩ := hS t.call _ hc
    rw [← hx.told]
    cases habides.1 with
    | begins _ htold => exact .inl htold
    | reads _ htold => exact .inr htold
  | waiting g next hc =>
    obtain ⟨x, hx, habides⟩ := hS t.call _ hc
    rw [← hx.told]
    cases habides.1 with
    | waits _ htold => exact .inr htold

theorem surfacesIn_runs (ht : Cancels t (runs (keys kind path) n pre)) (post : List Turn) :
    ((runs (keys kind path) n pre).step t).memory = (runs (keys kind path) n pre).memory ∧
      SurfacesIn t.call 1 ((runs (keys kind path) n pre).step t) post := by
  have hlt : t.call < n := by
    obtain ⟨c, hc⟩ : ∃ c, (runs (keys kind path) n pre).calls[t.call]? = some c := by
      cases ht with
      | asked q next hc => exact ⟨_, hc⟩
      | waiting g next hc => exact ⟨_, hc⟩
    exact lt_of_call hc
  have hstart : (runs (keys kind path) n []).calls[t.call]? = some (keys kind path) :=
    call_of_runs_nil hlt
  have hkeys : (keys kind path).Surfaces (fun _ _ => False) 1 := surfaces_keys kind path
  obtain ⟨c, hc, hsurfaces⟩ := surfaces_run hkeys hstart pre
  obtain ⟨hm, hfallen | hsaid⟩ := surfacesIn_of_cancels hsurfaces hc ht post
  · obtain ⟨_, _, -, _, _, _, -, -, hno⟩ := hfallen
    exact hno.elim
  · exact ⟨hm, hsaid⟩

/-- A call that is cancelled keeps nothing, not before and not after. -/
theorem cancelled_keeps (ht : Cancels t (runs (keys kind path) n pre)) {before after : List Turn}
    {u : Turn} (hsplit : pre ++ t :: post = before ++ u :: after) (hu : u.call = t.call) :
    (runs (keys kind path) n (before ++ [u])).memory = (runs (keys kind path) n before).memory := by
  obtain ⟨hm, hsaid⟩ := surfacesIn_runs ht post
  rcases List.append_eq_append_iff.mp hsplit with ⟨ts, rfl, hts⟩ | ⟨ts, rfl, hts⟩
  · cases ts with
    | nil =>
      cases hts
      rw [List.append_nil, runs_concat]
      exact hm
    | cons v ts =>
      cases hts
      have hstep := hsaid.keeps ts u after rfl hu
      rw [runs_concat, runs_append]
      exact hstep
  · cases ts with
    | nil =>
      cases hts
      rw [List.append_nil] at hm
      rw [runs_concat]
      exact hm
    | cons v ts =>
      cases hts
      have hno : ∀ e ∈ own t.call (runs (keys kind path) n (before ++ u :: ts)).events, ∀ s,
          ¬ Gives path s e := by
        intro e he s hs
        rcases told_of_cancels (runs_keeping kind path n _) ht with htold | htold
        all_goals rw [htold] at he
        · cases he
        · rw [List.mem_singleton.mp he] at hs
          exact not_gives_goAhead hs
      exact unchanged_of_not_gives hno rfl hu

/-! ## All runs -/

/-- What holds of all runs of so many calls for the keys of one file that was never read before,
whatever turns they take and whatever they are told. -/
structure ReadOnce (kind : Kind) (path : String) (n : Nat) : Prop where
  /-- Not even the clock is asked. -/
  asks : ∀ ts, ∀ e ∈ (runs (keys kind path) n ts).events,
    e.2.question = .goAhead ∨ e.2.question = .file path
  /-- Each call asks first of all whether it may go on. One that may not is cancelled by that, even
  where keys are kept. -/
  begins : ∀ pre t post, t.call < n → (∀ u ∈ pre, u.call ≠ t.call) →
    own t.call (runs (keys kind path) n (pre ++ [t])).events =
      [⟨.goAhead, t.answers .goAhead⟩] ∧
    (runs (keys kind path) n (pre ++ [t])).memory = (runs (keys kind path) n pre).memory ∧
    (t.answers .goAhead = none →
      (runs (keys kind path) n (pre ++ t :: post)).result? t.call = some (.error .cancelled))
  /-- Whoever comes to keys was told that it may go on, and these keys are what a reading gave. -/
  given : ∀ ts i s, (runs (keys kind path) n ts).result? i = some (.ok s) →
    (∃ told, own i (runs (keys kind path) n ts).events = granted :: told) ∧
    ∃ j e, (j, e) ∈ (runs (keys kind path) n ts).events ∧ Gives path s e
  unset : ∀ ts, Unread path (runs (keys kind path) n ts).events →
    (runs (keys kind path) n ts).memory = .empty
  /-- Something is kept once, by a call that was told itself what is in the file. -/
  changes : ∀ ts t,
    (runs (keys kind path) n (ts ++ [t])).memory = (runs (keys kind path) n ts).memory ∨
    (runs (keys kind path) n ts).memory = .empty ∧
      ∃ e s, e ∈ own t.call (runs (keys kind path) n ts).events ∧ Gives path s e ∧
      (runs (keys kind path) n (ts ++ [t])).memory = Memory.empty.replaceKeys kind s
  /-- Whoever is let in before any reading gave keys reads the file for itself, and that is what
  comes of it. -/
  rereads : ∀ pre t post r, LetsIn (.keys kind) t (runs (keys kind path) n pre) →
    Unread path (runs (keys kind path) n pre).events →
    (runs (keys kind path) n (pre ++ t :: post)).result? t.call = some r →
    ∃ a, own t.call (runs (keys kind path) n (pre ++ t :: post)).events =
        [granted, reading path a] ∧
      r = outcome path a
  /-- Whoever fails and is not cancelled was told of a file that holds no keys, and keeps
  nothing. -/
  fails : ∀ ts i error, Uncancelled i (runs (keys kind path) n []) ts →
    (runs (keys kind path) n ts).result? i = some (.error error) →
    (∃ answer, own i (runs (keys kind path) n ts).events = [granted, reading path (some answer)] ∧
      outcome path (some answer) = .error error ∧ error.code = .certificateFetchFailed) ∧
    ∀ pre t post, ts = pre ++ t :: post → t.call = i →
      (runs (keys kind path) n (pre ++ [t])).memory = (runs (keys kind path) n pre).memory
  /-- Once a reading gave keys nobody reads the file any more, nothing else is ever kept, and
  whoever was not through yet comes to just these keys, unless it is cancelled. -/
  first : ∀ pre post i e s, (i, e) ∈ (runs (keys kind path) n pre).events → Gives path s e →
    ReadNoMore (runs (keys kind path) n pre).events (runs (keys kind path) n (pre ++ post)).events ∧
    ((runs (keys kind path) n (pre ++ post)).inside (.keys kind) = some i ∧
        (runs (keys kind path) n (pre ++ post)).memory = .empty ∨
      (runs (keys kind path) n (pre ++ post)).memory = Memory.empty.replaceKeys kind s) ∧
    ∀ j r, (runs (keys kind path) n pre).result? j = none →
      Uncancelled j (runs (keys kind path) n []) (pre ++ post) →
      (runs (keys kind path) n (pre ++ post)).result? j = some r → r = .ok s
  /-- A call that is cancelled says so, in one turn more at most and whatever is kept, and none of
  its turns changes what is kept. -/
  cancelled : ∀ pre t post, Cancels t (runs (keys kind path) n pre) →
    (∀ r, (runs (keys kind path) n (pre ++ t :: post)).result? t.call = some r →
      ∃ error, r = .error error ∧ error.category = .cancelled) ∧
    (1 ≤ post.countP (·.call = t.call) →
      ∃ r, (runs (keys kind path) n (pre ++ t :: post)).result? t.call = some r) ∧
    ∀ before u after, pre ++ t :: post = before ++ u :: after → u.call = t.call →
      (runs (keys kind path) n (before ++ [u])).memory = (runs (keys kind path) n before).memory
  /-- Whoever is never kept waiting has a result in seven turns of its own. -/
  ends : ∀ ts i, i < n →
    (∀ pre t post, ts = pre ++ t :: post → t.call = i →
      ¬ KeptWaiting t (runs (keys kind path) n pre)) →
    7 ≤ ts.countP (·.call = i) → ∃ r, (runs (keys kind path) n ts).result? i = some r
  /-- Nobody is kept waiting for long: whoever is inside is through in four turns of its own. -/
  leaves : ∀ pre post i, (runs (keys kind path) n pre).inside (.keys kind) = some i →
    3 < post.countP (·.call = i) → ∃ r, (runs (keys kind path) n (pre ++ post)).result? i = some r

/-- **Stored keys are read once**, whoever has turns when, whatever becomes of the file and whoever
is cancelled. -/
theorem readOnce (kind : Kind) (path : String) (n : Nat) : ReadOnce kind path n where
  asks ts e he := by
    obtain ⟨x, hmay⟩ := (runs_keeping kind path n []).asked rfl he
    obtain ⟨i, q, a⟩ := e
    cases hmay with
    | begins => exact .inl rfl
    | reads => exact .inr rfl
  begins pre t post hi hpre := by
    have hc : (runs (keys kind path) n pre).calls[t.call]? = some (keys kind path) :=
      call_of_no_turn hi hpre
    have hown : own t.call (runs (keys kind path) n pre).events = [] := own_run_other hpre
    rw [runs_concat, runs_append_cons]
    refine ⟨?_, ?_, fun ha => result?_run (cancelled_of_refused hc ha) post⟩
    · rw [step_fresh hc, own_append, own_self, hown]
      rfl
    · rw [step_fresh hc]
      rfl
  given ts i s := given_runs
  unset ts hno := by
    cases runs_phase kind path n ts with
    | unread _ hm => exact hm
    | read h => exact absurd h.gives (hno _ h.mem _)
  changes := changes_runs kind path n
  rereads pre t post r hin hno hr := by
    have hS := runs_keeping kind path n pre
    have hnone : ((runs (keys kind path) n pre).memory.keys kind).latest = none := by
      cases runs_phase kind path n pre with
      | unread _ hm => rw [hm, latest_empty]
      | read h => exact absurd h.gives (hno _ h.mem _)
    rw [runs_append_cons] at hr ⊢
    have hS' := Abiding.step hS t
    exact ((readsItself_of_letsIn hS hin hnone).run hS' post).result (Abiding.run hS' post) hr
  fails ts i error hts hr := by
    obtain ⟨answer, hown, ho, hcode⟩ := fails_runs hts hr
    refine ⟨⟨answer, hown, ho, hcode⟩, fun pre t post hsplit hi => ?_⟩
    refine unchanged_of_not_gives (fun e he s hs => ?_) hsplit hi
    rw [hown] at he
    rcases List.mem_pair.mp he with rfl | rfl
    · exact not_gives_goAhead hs
    · cases ho.symm.trans (gives_reading.mp hs)
  first pre post i e s he hs := by
    have hfirst := firstRead_of_gives he hs
    obtain ⟨hafter, hread⟩ := hfirst.run (runs_keeping kind path n pre) post
    rw [runs_append]
    refine ⟨hread, hafter.kept, fun j r hnone hts hr => ?_⟩
    rw [← runs_append] at hr
    exact hfirst.result hnone hts hr
  cancelled pre t post ht := by
    obtain ⟨-, hsaid⟩ := surfacesIn_runs ht post
    rw [runs_append_cons]
    exact ⟨hsaid.fails, hsaid.ends, fun before u after => cancelled_keeps ht⟩
  ends ts i hi hfree hts := by
    exact ends_of_takes (keys_takes kind path) (call_of_runs_nil hi) ts hfree hts
  leaves pre post i := ends_of_inside_runs

end IdentityTokens.StoredKeys
