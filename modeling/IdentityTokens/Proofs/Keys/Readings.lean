import IdentityTokens.Keys.Stored
import IdentityTokens.Proofs.Call.Pacts
import IdentityTokens.Proofs.Call.Undisturbed
import IdentityTokens.Proofs.Keys.History

/-! # Reading stored keys

What one call for stored keys does: it asks whether it may go on, and unless keys are kept already
it waits for its turn, looks again and reads the file. An answer to that comes to keys, which are
kept, or to an error, which is not. The calls promise each other that nobody touches what is kept,
and that nobody keeps anything but what was read inside where nothing was kept. -/
namespace IdentityTokens.StoredKeys

open Call

variable {kind : Kind} {path : String} {a : Option (Except FileFault Bytes)} {s : KeySnapshot}
  {e : AuthError} {x : Standing}

/-! ## What an answer comes to -/

/-- What an answer to the reading comes to. -/
def outcome (path : String) : Option (Except FileFault Bytes) → Except AuthError KeySnapshot
  | none => .error .cancelled
  | some (.error f) =>
    .error (certificateError ("failed to read public keys from " ++ path ++ ": " ++ f.message))
  | some (.ok b) => (KeyDocument.read b).map KeySnapshot.permanent

/-- Only a file that holds a key document gives keys, and those are never due. -/
theorem outcome_eq_ok_iff : outcome path a = .ok s ↔
    ∃ b keys, a = some (.ok b) ∧ KeyDocument.read b = .ok keys ∧ s = .permanent keys := by
  constructor
  · intro h
    rcases a with _ | _ | b
    · cases h
    · cases h
    · obtain ⟨keys, hread, rfl⟩ := ok_of_map h
      exact ⟨b, keys, rfl, hread, rfl⟩
  · rintro ⟨b, keys, rfl, hread, rfl⟩
    rw [outcome, hread]
    rfl

/-- Where a file gives no keys, that is what is wrong with the certificates, unless the call was
cancelled. -/
theorem outcome_eq_error (h : outcome path a = .error e) :
    a = none ∧ e = .cancelled ∨ a ≠ none ∧ ∃ message, e = certificateError message := by
  rcases a with _ | fault | b
  · cases h
    exact .inl ⟨rfl, rfl⟩
  · cases h
    exact .inr ⟨nofun, _, rfl⟩
  · rw [outcome] at h
    rcases hread : KeyDocument.read b with e' | keys
    all_goals
      rw [hread] at h
      cases h
    exact .inr ⟨nofun, PublishedKeys.certificateError_of_read hread⟩

/-! ## The call as it is built -/

theorem read_eq (path : String) : read path = .ask (.file path) fun a => .done (outcome path a) := by
  refine congrArg (Call.ask (.file path)) (funext fun a => ?_)
  rcases a with _ | _ | b
  · rfl
  · rfl
  · change (Call.done (KeyDocument.read b) >>= fun keys => Call.ok (KeySnapshot.permanent keys)) =
      .done ((KeyDocument.read b).map KeySnapshot.permanent)
    cases KeyDocument.read b <;> rfl

theorem load_eq (kind : Kind) (path : String) :
    load kind path = .look fun m => match (m.keys kind).latest with
      | some s => Call.ok s
      | none => .ask (.file path) fun a => match outcome path a with
        | .ok s => .keep (Memory.replaceKeys kind s) (Call.ok s)
        | .error e => Call.fail e := by
  refine congrArg Call.look (funext fun m => ?_)
  change (match (m.keys kind).latest with
    | some s => Call.ok s
    | none => read path >>= fun s => .keep (Memory.replaceKeys kind s) (Call.ok s)) = _
  rw [read_eq]
  cases (m.keys kind).latest with
  | some s => rfl
  | none =>
    refine congrArg (Call.ask (.file path)) (funext fun a => ?_)
    change (Call.done (outcome path a) >>= fun s =>
      .keep (Memory.replaceKeys kind s) (Call.ok s)) = _
    cases outcome path a <;> rfl

/-- What is done with the leave to go on. -/
def consult (kind : Kind) (path : String) : Call KeySnapshot :=
  .look fun m => match (m.keys kind).latest with
    | some s => Call.ok s
    | none => (load kind path).behind (.keys kind)

theorem keys_eq (kind : Kind) (path : String) :
    keys kind path = .ask .goAhead fun
      | none => Call.fail .cancelled
      | some () => consult kind path :=
  congrArg (Call.ask .goAhead) (funext fun a => by cases a <;> rfl)

theorem load_lasts (kind : Kind) (path : String) : (load kind path).Lasts 3 := by
  rw [load_eq]
  refine .look fun m => ?_
  cases (m.keys kind).latest with
  | some s => exact .done _ 2
  | none =>
    refine .ask fun a => ?_
    cases outcome path a with
    | ok s => exact .keep (.done _ 0)
    | error e => exact .done _ 1

theorem keys_takes (kind : Kind) (path : String) : (keys kind path).Takes 7 := by
  rw [keys_eq]
  refine .ask fun a => ?_
  cases a with
  | none => exact .done _ 6
  | some =>
    refine .look fun m => ?_
    cases (m.keys kind).latest with
    | some s => exact .done _ 5
    | none => exact (load_lasts kind path).takes_behind

theorem avoids_ok : (Call.ok s).Avoids (· = .error .cancelled) := by
  rintro ⟨⟩

/-- Whoever is not cancelled does not say that it was. -/
theorem keys_avoids (kind : Kind) (path : String) :
    (keys kind path).Avoids (· = .error .cancelled) := by
  have hload : (load kind path).Avoids (· = .error .cancelled) := by
    rw [load_eq]
    intro m
    dsimp only
    cases (m.keys kind).latest with
    | some s => exact avoids_ok
    | none =>
      intro a ha
      dsimp only
      rcases h : outcome path a with e | s
      · rcases outcome_eq_error h with ⟨rfl, -⟩ | ⟨-, message, rfl⟩
        · cases ha
        · exact fun h => by cases h
      · exact avoids_ok
  rw [keys_eq]
  intro a ha
  cases a with
  | none => cases ha
  | some =>
    intro m
    dsimp only
    cases (m.keys kind).latest with
    | some s => exact avoids_ok
    | none => exact hload.behind

theorem surfaces_keys (kind : Kind) (path : String) {k : Nat}
    {fallback : Question → Memory → Prop} : (keys kind path).Surfaces fallback (k + 1) := by
  have hread : (read path).Surfaces fallback k := by
    refine (surfaces_readFile path).bind ?_
    intro r
    rcases r with fault | b
    · exact surfaces_fail _
    · exact (surfaces_done _).bind fun _ => surfaces_ok _
  refine surfaces_mayGoOn.bind fun _ => surfaces_memory.bind fun m => ?_
  split
  · exact surfaces_ok _
  refine Surfaces.behind (surfaces_memory.bind fun m' => ?_)
  split
  · exact surfaces_ok _
  · exact hread.bind fun s => (surfaces_remember _).bind fun _ => surfaces_ok s

/-! ## What calls promise each other -/

/-- The call was told that it may go on. -/
def granted : Event := ⟨.goAhead, some ()⟩

/-- The call was told what is in the file, or that it was cancelled over that. -/
def reading (path : String) (a : Option (Except FileFault Bytes)) : Event := ⟨.file path, a⟩

/-- Nothing is kept but what was read inside, where nothing was kept, and then nobody touches it. -/
def firstReading (kind : Kind) (path : String) : Pact where
  gate := some (.keys kind)
  bears := fun inside m m' => inside = true ∨ (m.keys kind).latest ≠ none → m' = m
  keeps := fun x m m' => x.inside = true ∧ (m.keys kind).latest = none ∧
    ∃ a s, x.told = [granted, reading path a] ∧ outcome path a = .ok s ∧ m' = m.replaceKeys kind s
  refl := fun _ _ _ => rfl
  trans := by
    intro inside m m' m'' h h' hm
    obtain rfl := h hm
    exact h' hm
  of_inside := fun h _ => h (.inl rfl)
  bears_of_keeps := by
    rintro x m m' ⟨hin, hnone, -⟩ (hout | hsome)
    · rw [hin] at hout
      cases hout
    · exact absurd hnone hsome

/-- What a call may do where it stands. -/
inductive May (kind : Kind) (path : String) (x : Standing) : Deed → Prop
  | begins (hout : x.inside = false) (htold : x.told = []) : May kind path x (.ask .goAhead)
  | looks (htold : x.told = [granted]) : May kind path x .look
  | waits (hout : x.inside = false) (htold : x.told = [granted]) :
      May kind path x (.enter (.keys kind))
  | reads (hin : x.inside = true) (htold : x.told = [granted])
      (hnone : (x.memory.keys kind).latest = none) : May kind path x (.ask (.file path))
  | keeps (hin : x.inside = true) {a : Option (Except FileFault Bytes)} {s : KeySnapshot}
      (htold : x.told = [granted, reading path a]) (ho : outcome path a = .ok s) :
      May kind path x .keep
  /-- Whoever leaves has found something kept, or has kept what it read, or has read in vain. -/
  | leaves (hin : x.inside = true) (hnone : (x.memory.keys kind).latest = none ↔
      ∃ a e, x.told = [granted, reading path a] ∧ outcome path a = .error e) :
      May kind path x (.exit (.keys kind))

/-- What a call ends with where it stands. -/
inductive Ending (kind : Kind) (path : String) (x : Standing) : Except AuthError KeySnapshot → Prop
  | refused (htold : x.told = [⟨.goAhead, none⟩]) : Ending kind path x (.error .cancelled)
  | stopped (htold : x.told = [granted]) : Ending kind path x (.error .cancelled)
  | found {s : KeySnapshot} (htold : x.told = [granted])
      (hkept : (x.memory.keys kind).latest = some s) : Ending kind path x (.ok s)
  | read (a : Option (Except FileFault Bytes)) (htold : x.told = [granted, reading path a])
      (hkept : ∀ s, outcome path a = .ok s → (x.memory.keys kind).latest = some s) :
      Ending kind path x (outcome path a)

/-- Being inside comes to what the call ends with, and the call may leave then. -/
structure Stay (kind : Kind) (path : String) (x : Standing) (r : Except AuthError KeySnapshot) :
    Prop where
  leaves : May kind path x (.exit (.keys kind))
  ending : Ending kind path x r

theorem load_abides (hin : x.inside = true) (htold : x.told = [granted]) :
    (load kind path).Abides (firstReading kind path) (May kind path) (Stay kind path) x := by
  rw [load_eq]
  refine ⟨.looks htold, fun m hm => ?_⟩
  dsimp only
  rcases hlatest : (m.keys kind).latest with _ | s
  · refine ⟨.reads hin htold hlatest, fun a => ?_⟩
    have htold' : ((x.see m).tell (reading path a)).told = [granted, reading path a] := by
      rw [Standing.tell_told, Standing.see_told, htold]
      rfl
    dsimp only
    rcases ho : outcome path a with e | s
    · refine ⟨.leaves hin (iff_of_true hlatest ⟨a, e, htold', ho⟩), ?_⟩
      rw [← ho]
      exact .read a htold' fun s hs => by cases ho.symm.trans hs
    · refine ⟨.keeps hin htold' ho, fun m' hm' => ⟨⟨hin, ?_, a, s, htold', ho, rfl⟩, ?_⟩⟩
      · rw [hm' (.inl hin)]
        exact hlatest
      · have hkept : ((m'.replaceKeys kind s).keys kind).latest = some s := by
          rw [Memory.keys_replaceKeys]
          rfl
        refine ⟨.leaves hin (iff_of_false ?_ ?_), ?_⟩
        · rw [Standing.see_memory, hkept]
          exact nofun
        · rintro ⟨a', e, htold'', ho'⟩
          cases htold'.symm.trans htold''
          cases ho.symm.trans ho'
        · rw [← ho]
          refine .read a htold' fun s' hs' => ?_
          cases ho.symm.trans hs'
          exact hkept
  · refine ⟨.leaves hin (iff_of_false ?_ ?_), .found htold hlatest⟩
    · rw [Standing.see_memory, hlatest]
      exact nofun
    · rintro ⟨a, e, htold', -⟩
      cases htold.symm.trans htold'

theorem Ending.leave {r : Except AuthError KeySnapshot} (h : Ending kind path x r) :
    Ending kind path x.leave r := by
  cases h with
  | refused htold => exact .refused htold
  | stopped htold => exact .stopped htold
  | found htold hkept => exact .found htold hkept
  | read a htold hkept => exact .read a htold hkept

/-- **A call for stored keys keeps to what all such calls promise each other.** -/
theorem keys_abides (kind : Kind) (path : String) (m : Memory) :
    (keys kind path).Abides (firstReading kind path) (May kind path)
      (fun x r => x.inside = false ∧ Ending kind path x r) (.start m) := by
  rw [keys_eq]
  refine ⟨.begins rfl rfl, fun a => ?_⟩
  cases a with
  | none => exact ⟨rfl, .refused rfl⟩
  | some =>
    refine ⟨.looks rfl, fun m' hm' => ?_⟩
    dsimp only
    rcases hlatest : (m'.keys kind).latest with _ | s
    · refine abides_behind rfl (.waits rfl rfl) rfl ⟨rfl, .stopped rfl⟩ fun m'' hm'' => ?_
      refine (load_abides rfl rfl).mono (fun _ _ => id) fun y r hy => ⟨hy.leaves, ?_, rfl, ?_⟩
      · cases hy.leaves with
        | leaves hin => exact hin
      · exact hy.ending.leave
    · exact ⟨rfl, .found rfl hlatest⟩

end IdentityTokens.StoredKeys
