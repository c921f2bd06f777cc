import Mathlib.Data.List.Induction
import IdentityTokens.Proofs.Call.Sessions
import IdentityTokens.Proofs.Keys.Readings

/-! # The first reading counts for good

Calls for the keys of one file, in any order, and whatever becomes of the file meanwhile. Until a
reading gives keys nothing is kept, and whoever is let in reads the file for itself. The first
reading that gives keys is the last one: nobody reads the file again, what it gave is kept for
good, and all that are not cancelled come to that. What a turn can do is said once; the rest
follows from it turn by turn. -/
namespace IdentityTokens.StoredKeys

open Call Interleaving

variable {kind : Kind} {path : String} {n : Nat} {ts us : List Turn} {t : Turn} {i j : Nat}
  {S S' : Interleaving KeySnapshot} {x : Standing} {s s' : KeySnapshot} {e e' : Event}
  {a : Option (Except FileFault Bytes)}

/-- Each call keeps to what all of them promise each other. -/
def Keeping (kind : Kind) (path : String) (S : Interleaving KeySnapshot) : Prop :=
  Abiding (firstReading kind path) (fun _ => May kind path)
    (fun _ x r => x.inside = false ∧ Ending kind path x r) S

theorem runs_keeping (kind : Kind) (path : String) (n : Nat) (ts : List Turn) :
    Keeping kind path (runs (keys kind path) n ts) := by
  refine (abiding_start fun i c hc => ?_).run ts
  rw [eq_of_runs_nil hc]
  exact keys_abides kind path .empty

/-! ## Readings that give keys -/

/-- The call was told that the file holds a key document, and which keys are in it. -/
def Gives (path : String) (s : KeySnapshot) (e : Event) : Prop :=
  ∃ b keys, e = reading path (some (.ok b)) ∧ KeyDocument.read b = .ok keys ∧ s = .permanent keys

/-- Nothing that was read so far gave keys. -/
def Unread (path : String) (events : List (Nat × Event)) : Prop :=
  ∀ e ∈ events, ∀ s, ¬ Gives path s e.2

/-- From then on nobody read anything: calls were only told whether they may go on. -/
def ReadNoMore (es fs : List (Nat × Event)) : Prop :=
  ∃ gs, fs = es ++ gs ∧ ∀ e ∈ gs, e.2.question = .goAhead

theorem ReadNoMore.of_eq {es fs : List (Nat × Event)} (h : fs = es) : ReadNoMore es fs :=
  ⟨[], h.trans (List.append_nil es).symm, fun _ he => absurd he List.not_mem_nil⟩

theorem ReadNoMore.of_begins {es fs : List (Nat × Event)} {a : Option Unit}
    (h : fs = es ++ [(i, ⟨.goAhead, a⟩)]) : ReadNoMore es fs := by
  refine ⟨_, h, fun e he => ?_⟩
  rw [List.mem_singleton.mp he]

theorem ReadNoMore.trans {es fs gs : List (Nat × Event)} (h : ReadNoMore es fs)
    (h' : ReadNoMore fs gs) : ReadNoMore es gs := by
  obtain ⟨as, rfl, has⟩ := h
  obtain ⟨bs, rfl, hbs⟩ := h'
  exact ⟨as ++ bs, List.append_assoc .., fun e he => (List.mem_append.mp he).elim (has e) (hbs e)⟩

theorem ReadNoMore.own_eq {es fs : List (Nat × Event)} (h : ReadNoMore es fs)
    (hown : own i fs = [granted, reading path a]) : own i es = [granted, reading path a] := by
  obtain ⟨gs, rfl, hgs⟩ := h
  rw [own_append] at hown
  rcases List.eq_nil_or_concat (own i gs) with hnil | ⟨init, last, hlast⟩
  · rwa [hnil, List.append_nil] at hown
  · have hmem : (i, last) ∈ gs := by
      rw [← mem_own, hlast]
      simp
    rw [hlast, List.concat_eq_append, ← List.append_assoc,
      show [granted, reading path a] = [granted] ++ [reading path a] from rfl] at hown
    obtain rfl : last = reading path a := List.singleton_inj.mp (List.append_inj' hown rfl).2
    cases hgs _ hmem

theorem reading_inj {a b : Option (Except FileFault Bytes)} (h : reading path a = reading path b) :
    a = b := by
  cases h
  rfl

theorem gives_iff : Gives path s e ↔ ∃ a, e = reading path a ∧ outcome path a = .ok s := by
  constructor
  · rintro ⟨b, keys, rfl, hread, rfl⟩
    exact ⟨_, rfl, outcome_eq_ok_iff.mpr ⟨b, keys, rfl, hread, rfl⟩⟩
  · rintro ⟨a, rfl, ho⟩
    obtain ⟨b, keys, rfl, hread, rfl⟩ := outcome_eq_ok_iff.mp ho
    exact ⟨b, keys, rfl, hread, rfl⟩

theorem gives_reading : Gives path s (reading path a) ↔ outcome path a = .ok s := by
  rw [gives_iff]
  constructor
  · rintro ⟨b, hb, ho⟩
    rwa [reading_inj hb]
  · exact fun ho => ⟨a, rfl, ho⟩

theorem Gives.unique (h : Gives path s e) (h' : Gives path s' e) : s = s' := by
  obtain ⟨a, rfl, ho⟩ := gives_iff.mp h
  cases ho.symm.trans (gives_reading.mp h')
  rfl

theorem not_gives_goAhead {a : Option Unit} : ¬ Gives path s ⟨.goAhead, a⟩ := by
  rintro ⟨_, _, heq, -⟩
  cases heq

/-! ## Where a call stands among others -/

theorem inside_of_fits (hx : Fits (firstReading kind path) S i x) :
    x.inside = true ↔ S.inside (.keys kind) = some i := by
  rw [hx.inside]
  constructor
  · rintro ⟨g, hg, hin⟩
    cases hg
    exact hin
  · exact fun hin => ⟨_, rfl, hin⟩

theorem memory_of_inside (hx : Fits (firstReading kind path) S i x) (hin : x.inside = true) :
    S.memory = x.memory :=
  hx.memory (.inl hin)

theorem memory_of_kept (hx : Fits (firstReading kind path) S i x)
    (h : (x.memory.keys kind).latest = some s) : S.memory = x.memory :=
  hx.memory (.inr (by rw [h]; exact nofun))

/-- What one turn of a call comes to. -/
inductive OneTurn (kind : Kind) (path : String) (i : Nat) (S S' : Interleaving KeySnapshot) : Prop
  | quiet (hm : S'.memory = S.memory) (he : S'.events = S.events)
      (hstays : S.inside (.keys kind) = some i → S'.inside (.keys kind) = some i)
  | begins (a : Option Unit) (hown : own i S.events = []) (hm : S'.memory = S.memory)
      (he : S'.events = S.events ++ [(i, ⟨.goAhead, a⟩)])
  | reads (a : Option (Except FileFault Bytes)) (hin : S.inside (.keys kind) = some i)
      (hown : own i S.events = [granted]) (hnone : (S.memory.keys kind).latest = none)
      (hm : S'.memory = S.memory) (he : S'.events = S.events ++ [(i, reading path a)])
      (hstays : S'.inside (.keys kind) = some i)
  | keeps (a : Option (Except FileFault Bytes)) (s : KeySnapshot)
      (hin : S.inside (.keys kind) = some i) (hown : own i S.events = [granted, reading path a])
      (ho : outcome path a = .ok s) (hnone : (S.memory.keys kind).latest = none)
      (hm : S'.memory = S.memory.replaceKeys kind s) (he : S'.events = S.events)
  | leaves (hin : S.inside (.keys kind) = some i) (hnone : (S.memory.keys kind).latest = none ↔
        ∃ a e, own i S.events = [granted, reading path a] ∧ outcome path a = .error e)
      (hm : S'.memory = S.memory) (he : S'.events = S.events)

theorem oneTurn (h : Keeping kind path S) (t : Turn) :
    OneTurn kind path t.call S (S.step t) := by
  rcases hc : S.calls[t.call]? with _ | c
  · rw [step_none hc]
    exact .quiet rfl rfl id
  obtain ⟨x, hx, habides⟩ := h t.call c hc
  cases c with
  | done r =>
    rw [step_done hc]
    exact .quiet rfl rfl id
  | ask q next =>
    rw [step_ask hc]
    cases habides.1 with
    | begins hout htold => exact .begins _ (hx.told.symm.trans htold) rfl rfl
    | reads hin htold hnone =>
      have hinside := (inside_of_fits hx).mp hin
      rw [← memory_of_inside hx hin] at hnone
      exact .reads _ hinside (hx.told.symm.trans htold) hnone rfl rfl hinside
  | look next =>
    rw [step_look hc]
    exact .quiet rfl rfl id
  | keep change next =>
    rw [step_keep hc]
    obtain ⟨hin, hnone, a, s, htold, ho, hm⟩ := (habides.2 S.memory hx.memory).1
    exact .keeps a s ((inside_of_fits hx).mp hin) (hx.told.symm.trans htold) ho hnone hm rfl
  | enter g next =>
    rw [step_enter hc]
    split
    · exact .quiet rfl rfl id
    · split
      · rename_i hfree
        refine .quiet rfl rfl fun hin => ?_
        by_cases hg : Gate.keys kind = g
        · exact if_pos hg
        · exact (if_neg hg).trans hin
      · exact .quiet rfl rfl id
  | exit g next =>
    rw [step_exit hc]
    cases habides.1 with
    | leaves hin hnone =>
      rw [← memory_of_inside hx hin, hx.told] at hnone
      exact .leaves ((inside_of_fits hx).mp hin) hnone rfl rfl

theorem inside_step_other (h : Keeping kind path S) (hi : i ≠ t.call) :
    (S.step t).inside (.keys kind) = some i ↔ S.inside (.keys kind) = some i :=
  Abiding.inside_step_other h hi rfl

/-- Whoever was told what is in the file is told nothing more. -/
theorem own_step_of_reading (h : Keeping kind path S)
    (hown : own i S.events = [granted, reading path a]) :
    own i (S.step t).events = [granted, reading path a] := by
  by_cases hi : i = t.call
  · subst hi
    cases oneTurn h t with
    | quiet hm he => rw [he, hown]
    | begins _ hown' => cases hown.symm.trans hown'
    | reads _ _ hown' => cases hown.symm.trans hown'
    | keeps _ _ _ _ _ _ _ he => rw [he, hown]
    | leaves _ _ _ he => rw [he, hown]
  · rw [own_step_other hi, hown]

/-- Whoever was told what is in the file is on its way out, or has ended with what that comes to. -/
theorem inside_or_ended (h : Keeping kind path S) {c : Call KeySnapshot}
    (hc : S.calls[i]? = some c) (hown : own i S.events = [granted, reading path a]) :
    (S.inside (.keys kind) = some i ∧
      ((S.memory.keys kind).latest = none ∨ ∃ s, outcome path a = .ok s)) ∨
    S.result? i = some (outcome path a) := by
  obtain ⟨x, hx, habides⟩ := h i c hc
  have htold := hx.told.trans hown
  cases c with
  | done r =>
    refine .inr (result?_of_done (hc.trans ?_))
    obtain ⟨-, hending⟩ := habides
    cases hending with
    | refused htold' => cases htold.symm.trans htold'
    | stopped htold' => cases htold.symm.trans htold'
    | found htold' => cases htold.symm.trans htold'
    | read a' htold' =>
      cases htold.symm.trans htold'
      rfl
  | ask q next =>
    cases habides.1 with
    | begins _ htold' => cases htold.symm.trans htold'
    | reads _ htold' => cases htold.symm.trans htold'
  | look next =>
    cases habides.1 with
    | looks htold' => cases htold.symm.trans htold'
  | keep change next =>
    cases habides.1 with
    | keeps hin htold' ho =>
      cases htold.symm.trans htold'
      exact .inl ⟨(inside_of_fits hx).mp hin, .inr ⟨_, ho⟩⟩
  | enter g next =>
    cases habides.1 with
    | waits _ htold' => cases htold.symm.trans htold'
  | exit g next =>
    cases habides.1 with
    | leaves hin hnone =>
      refine .inl ⟨(inside_of_fits hx).mp hin, ?_⟩
      rw [memory_of_inside hx hin, hnone]
      rcases ho : outcome path a with error | s
      · exact .inl ⟨a, error, htold, ho⟩
      · exact .inr ⟨s, rfl⟩

/-! ## The first reading -/

/-- A call read the file and got keys, as nobody else did. It is about to keep them, or they are
kept. -/
structure FirstRead (kind : Kind) (path : String) (i : Nat) (s : KeySnapshot) (e : Event)
    (S : Interleaving KeySnapshot) : Prop where
  told : own i S.events = [granted, e]
  gives : Gives path s e
  only : ∀ e' ∈ S.events, ∀ s', Gives path s' e'.2 → e' = (i, e)
  kept : S.inside (.keys kind) = some i ∧ S.memory = .empty ∨
    S.memory = Memory.empty.replaceKeys kind s

/-- Nothing was read so far, or there was a first reading. -/
inductive Phase (kind : Kind) (path : String) (S : Interleaving KeySnapshot) : Prop
  | unread (hno : Unread path S.events) (hm : S.memory = .empty)
  | read {i : Nat} {s : KeySnapshot} {e : Event} (h : FirstRead kind path i s e S)

theorem latest_empty (kind : Kind) : (Memory.empty.keys kind).latest = none := by
  cases kind <;> rfl

theorem latest_replaceKeys (kind : Kind) (s : KeySnapshot) (m : Memory) :
    ((m.replaceKeys kind s).keys kind).latest = some s := by
  rw [Memory.keys_replaceKeys]
  rfl

theorem FirstRead.mem (h : FirstRead kind path i s e S) : (i, e) ∈ S.events := by
  rw [← mem_own, h.told]
  simp

theorem FirstRead.latest (h : FirstRead kind path i s e S)
    (hlatest : (S.memory.keys kind).latest = some s') : s = s' := by
  rcases h.kept with ⟨-, hm⟩ | hm
  all_goals rw [hm] at hlatest
  · cases (latest_empty kind).symm.trans hlatest
  · cases (latest_replaceKeys kind s _).symm.trans hlatest
    rfl

theorem FirstRead.of_same (h : FirstRead kind path i s e S) (he : S'.events = S.events)
    (hkept : S'.inside (.keys kind) = some i ∧ S'.memory = .empty ∨
      S'.memory = Memory.empty.replaceKeys kind s) : FirstRead kind path i s e S' where
  told := by rw [he]; exact h.told
  gives := h.gives
  only := by rw [he]; exact h.only
  kept := hkept

/-- That another call begins changes nothing for the one that read first. -/
theorem FirstRead.of_begins (h : FirstRead kind path i s e S) (hi : i ≠ j) {a : Option Unit}
    (he : S'.events = S.events ++ [(j, ⟨.goAhead, a⟩)])
    (hkept : S'.inside (.keys kind) = some i ∧ S'.memory = .empty ∨
      S'.memory = Memory.empty.replaceKeys kind s) : FirstRead kind path i s e S' where
  told := by rw [he, own_append, own_other hi, List.append_nil, h.told]
  gives := h.gives
  only := by
    rw [he]
    intro e' he' s' hs'
    rcases List.mem_append.mp he' with he' | he'
    · exact h.only e' he' s' hs'
    · rw [List.mem_singleton.mp he'] at hs'
      exact absurd hs' not_gives_goAhead
  kept := hkept

/-- After the first reading nothing is asked any more but whether to go on. -/
theorem FirstRead.step (hS : Keeping kind path S) (h : FirstRead kind path i s e S) (t : Turn) :
    FirstRead kind path i s e (S.step t) ∧ ReadNoMore S.events (S.step t).events := by
  -- Where nothing is kept yet nobody else is inside.
  have hself (hnone : (S.memory.keys kind).latest = none) :
      S.inside (.keys kind) = some i ∧ S.memory = .empty := by
    refine h.kept.resolve_right fun hm => ?_
    rw [hm] at hnone
    cases (latest_replaceKeys kind s _).symm.trans hnone
  have hcall (hnone : (S.memory.keys kind).latest = none)
      (hin : S.inside (.keys kind) = some t.call) : t.call = i :=
    Option.some.inj (hin.symm.trans (hself hnone).1)
  cases oneTurn hS t with
  | quiet hm he hstays =>
    refine ⟨h.of_same he ?_, .of_eq he⟩
    rw [hm]
    refine h.kept.imp_left fun ⟨hin, hempty⟩ => ⟨?_, hempty⟩
    by_cases hi : i = t.call
    · subst hi
      exact hstays hin
    · exact (inside_step_other hS hi).mpr hin
  | begins a hown hm he =>
    have hi : i ≠ t.call := by
      rintro rfl
      cases h.told.symm.trans hown
    refine ⟨h.of_begins hi he ?_, .of_begins he⟩
    rw [hm, inside_step_other hS hi]
    exact h.kept
  | reads a hin hown hnone hm he =>
    obtain rfl := hcall hnone hin
    cases h.told.symm.trans hown
  | keeps a s' hin hown ho hnone hm he =>
    obtain rfl := hcall hnone hin
    cases h.told.symm.trans hown
    cases h.gives.unique (gives_reading.mpr ho)
    refine ⟨h.of_same he (.inr ?_), .of_eq he⟩
    rw [hm, (hself hnone).2]
  | leaves hin hnone hm he =>
    refine ⟨h.of_same he (.inr ?_), .of_eq he⟩
    rw [hm]
    refine h.kept.resolve_left fun ⟨hin', hempty⟩ => ?_
    obtain rfl : i = t.call := Option.some.inj (hin'.symm.trans hin)
    obtain ⟨a, error, hown, ho⟩ := hnone.mp (by rw [hempty]; exact latest_empty kind)
    cases h.told.symm.trans hown
    cases ho.symm.trans (gives_reading.mp h.gives)

theorem FirstRead.run (hS : Keeping kind path S) (h : FirstRead kind path i s e S)
    (ts : List Turn) :
    FirstRead kind path i s e (S.run ts) ∧ ReadNoMore S.events (S.run ts).events := by
  induction ts generalizing S with
  | nil => exact ⟨h, .of_eq rfl⟩
  | cons t ts ih =>
    obtain ⟨hstep, hread⟩ := h.step hS t
    obtain ⟨hrun, hread'⟩ := ih (Abiding.step hS t) hstep
    exact ⟨hrun, hread.trans hread'⟩

theorem Unread.append {es : List (Nat × Event)} {e : Nat × Event} (h : Unread path es)
    (he : ∀ s, ¬ Gives path s e.2) : Unread path (es ++ [e]) := by
  intro e' he'
  rcases List.mem_append.mp he' with he' | he'
  · exact h e' he'
  · rw [List.mem_singleton.mp he']
    exact he

theorem Phase.step (hS : Keeping kind path S) (h : Phase kind path S) (t : Turn) :
    Phase kind path (S.step t) := by
  cases h with
  | read h => exact .read (h.step hS t).1
  | unread hno hempty =>
    cases oneTurn hS t with
    | quiet hm he | leaves _ _ hm he =>
      refine .unread ?_ (hm.trans hempty)
      rw [he]
      exact hno
    | begins a _ hm he =>
      refine .unread ?_ (hm.trans hempty)
      rw [he]
      exact hno.append fun _ => not_gives_goAhead
    | reads a hin hown hnone hm he hstays =>
      rcases ho : outcome path a with error | s
      · refine .unread ?_ (hm.trans hempty)
        rw [he]
        refine hno.append fun s hs => ?_
        cases ho.symm.trans (gives_reading.mp hs)
      · refine .read (i := t.call) (s := s)
          ⟨?_, gives_reading.mpr ho, ?_, .inl ⟨hstays, hm.trans hempty⟩⟩
        · rw [he, own_append, own_self, hown]
          rfl
        · intro e' he' s' hs'
          rw [he] at he'
          rcases List.mem_append.mp he' with he' | he'
          · exact absurd hs' (hno e' he' s')
          · exact List.mem_singleton.mp he'
    | keeps a s hin hown ho =>
      have hmem : (t.call, reading path a) ∈ S.events := by
        rw [← mem_own, hown]
        simp
      exact absurd (gives_reading.mpr ho) (hno _ hmem s)

theorem runs_phase (kind : Kind) (path : String) (n : Nat) (ts : List Turn) :
    Phase kind path (runs (keys kind path) n ts) := by
  induction ts using List.reverseRecOn with
  | nil => exact .unread (fun _ he => absurd he List.not_mem_nil) rfl
  | append_singleton ts t ih =>
    rw [runs_concat]
    exact ih.step (runs_keeping kind path n ts) t

/-- Whoever got keys was the first one to read. -/
theorem firstRead_of_gives (he : (i, e) ∈ (runs (keys kind path) n ts).events)
    (hs : Gives path s e) : FirstRead kind path i s e (runs (keys kind path) n ts) := by
  cases runs_phase kind path n ts with
  | unread hno => exact absurd hs (hno _ he s)
  | read h =>
    cases h.only _ he s hs
    cases hs.unique h.gives
    exact h

/-! ## Whoever is let in -/

/-- A call that was let in where nothing was kept has read the file, or is about to. -/
def ReadsItself (kind : Kind) (path : String) (i : Nat) (S : Interleaving KeySnapshot) : Prop :=
  (S.inside (.keys kind) = some i ∧ own i S.events = [granted] ∧
    (S.memory.keys kind).latest = none) ∨
  ∃ a, own i S.events = [granted, reading path a]

theorem ReadsItself.step (hS : Keeping kind path S) (h : ReadsItself kind path i S) (t : Turn) :
    ReadsItself kind path i (S.step t) := by
  rcases h with ⟨hin, hown, hnone⟩ | ⟨a, hown⟩
  · by_cases hi : i = t.call
    · subst hi
      cases oneTurn hS t with
      | quiet hm he hstays =>
        refine .inl ⟨hstays hin, ?_, ?_⟩
        · rw [he, hown]
        · rw [hm, hnone]
      | begins _ hown' => cases hown.symm.trans hown'
      | reads a _ _ _ _ he =>
        refine .inr ⟨a, ?_⟩
        rw [he, own_append, own_self, hown]
        rfl
      | keeps _ _ _ hown' => cases hown.symm.trans hown'
      | leaves _ hleave =>
        obtain ⟨a, error, hown', -⟩ := hleave.mp hnone
        cases hown.symm.trans hown'
    · have hm : (S.step t).memory = S.memory := by
        cases oneTurn hS t with
        | keeps _ _ hin' => exact absurd (Option.some.inj (hin.symm.trans hin')) hi
        | quiet hm | begins _ _ hm | reads _ _ _ _ hm | leaves _ _ hm => exact hm
      refine .inl ⟨(inside_step_other hS hi).mpr hin, (own_step_other hi).trans hown, ?_⟩
      rw [hm, hnone]
  · exact .inr ⟨a, own_step_of_reading hS hown⟩

theorem ReadsItself.run (hS : Keeping kind path S) (h : ReadsItself kind path i S)
    (ts : List Turn) : ReadsItself kind path i (S.run ts) := by
  induction ts generalizing S with
  | nil => exact h
  | cons t ts ih => exact ih (Abiding.step hS t) (h.step hS t)

theorem readsItself_of_letsIn (hS : Keeping kind path S) (hin : LetsIn (.keys kind) t S)
    (hnone : (S.memory.keys kind).latest = none) : ReadsItself kind path t.call (S.step t) := by
  have hout : S.inside (.keys kind) ≠ some t.call := by
    rw [hin.1]
    exact nofun
  rcases hc : S.calls[t.call]? with _ | c
  · rw [LetsIn, step_none hc] at hin
    exact absurd hin.2 hout
  obtain ⟨x, hx, habides⟩ := hS t.call c hc
  have hinside := hin.2
  cases c with
  | done r =>
    rw [step_done hc] at hinside
    exact absurd hinside hout
  | ask q next =>
    rw [step_ask hc] at hinside
    exact absurd hinside hout
  | look next =>
    rw [step_look hc] at hinside
    exact absurd hinside hout
  | keep change next =>
    rw [step_keep hc] at hinside
    exact absurd hinside hout
  | enter g next =>
    refine .inl ⟨hin.2, ?_⟩
    cases habides.1 with
    | waits _ htold =>
      have hown := hx.told.symm.trans htold
      rw [step_enter hc]
      split
      · exact ⟨hown, hnone⟩
      · split <;> exact ⟨hown, hnone⟩
  | exit g next =>
    cases habides.1 with
    | leaves hin' => exact absurd ((inside_of_fits hx).mp hin') hout

/-- What comes of whoever reads for itself is what it was told is in the file. -/
theorem ReadsItself.result (hS : Keeping kind path S) (h : ReadsItself kind path i S)
    {r : Except AuthError KeySnapshot} (hr : S.result? i = some r) :
    ∃ a, own i S.events = [granted, reading path a] ∧ r = outcome path a := by
  obtain ⟨x, hx, hout, hending⟩ := Abiding.result hS hr
  rcases h with ⟨hin, -, -⟩ | ⟨a, hown⟩
  · rw [(inside_of_fits hx).mpr hin] at hout
    cases hout
  · have htold := hx.told.trans hown
    refine ⟨a, hown, ?_⟩
    cases hending with
    | refused htold' => cases htold.symm.trans htold'
    | stopped htold' => cases htold.symm.trans htold'
    | found htold' => cases htold.symm.trans htold'
    | read a' htold' =>
      cases htold.symm.trans htold'
      rfl

end IdentityTokens.StoredKeys
