import IdentityTokens.Proofs.Call.Sessions
import IdentityTokens.Proofs.Keys.Fetches

/-! # The stages of getting published keys

What a call does behind the gate, from the moment it is let in: it looks at what is kept,
reads the clock, and unless that will do it fetches once and puts a new snapshot in place of
the old one, or goes back to the old one. Each stage is told by what the call was answered. -/
namespace IdentityTokens.PublishedKeys

open Call

/-- What is done behind the gate. -/
def session (kind : Kind) (url : String) : Call KeySnapshot := do
  let cache := (← Call.memory).keys kind
  match cache.fresh? (← Call.now) with
  | some s => return s
  | none => refresh kind url

theorem keys_eq_behind (kind : Kind) (url : String) :
    keys kind url = (session kind url).behind (.keys kind) := rfl

theorem only_session {P : Deed → Prop} {kind : Kind} {url : String} (hlook : P .look)
    (hkeep : P .keep) (hgo : P (.ask .goAhead)) (htime : P (.ask .time))
    (hget : ∀ request, Request.build .get url [] "" = .ok request → P (.ask (.exchange request))) :
    (session kind url).Only P := by
  refine (only_memory hlook).bind fun m => (only_question htime).bind fun now => ?_
  split
  · exact only_ok _
  refine (only_fetch hgo htime hget).attempt.bind ?_
  intro r
  rcases r with e | s
  · refine (only_memory hlook).bind ?_
    intro m
    split
    · exact only_ok _
    · exact only_fail _
  · exact (only_remember hkeep _).bind fun _ => only_ok s

theorem session_gateless (kind : Kind) (url : String) :
    (session kind url).Only Deed.Gateless :=
  only_session trivial trivial trivial trivial fun _ _ => trivial

/-- What a call hands out that found a cache when it was let in, by what it was answered. -/
inductive Served (url : String) (found : KeyCache) :
    List Event → Except AuthError KeySnapshot → Prop
  | fresh {now : Int64} {s : KeySnapshot} (h : found.fresh? now = some s) :
      Served url found [⟨.time, now⟩] (.ok s)
  | fetched {now : Int64} {es : List Event} {s : KeySnapshot} (h : found.fresh? now = none)
      (hs : Fetching url es (.done (.ok s))) : Served url found (⟨.time, now⟩ :: es) (.ok s)
  | stale {now : Int64} {es : List Event} {e : AuthError} {s : KeySnapshot}
      (h : found.fresh? now = none) (he : Failed url es e) (hs : found.usable? = some s) :
      Served url found (⟨.time, now⟩ :: es) (.ok s)
  | failed {now : Int64} {es : List Event} {e : AuthError} (h : found.fresh? now = none)
      (he : Failed url es e) (hs : found.usable? = none) :
      Served url found (⟨.time, now⟩ :: es) (.error e)

/-- A call that is neither through nor about to change what is remembered. -/
inductive Open : Call KeySnapshot → Prop
  | ask (q : Question) (next : q.Answer → Call KeySnapshot) : Open (.ask q next)
  | look (next : Memory → Call KeySnapshot) : Open (.look next)

/-- Where a call stands behind the gate: what it was answered, what is left of it and what is
remembered then. -/
inductive Stage (kind : Kind) (url : String) (found : Memory) :
    List Event → Call KeySnapshot → Memory → Prop
  | starting {rest : Call KeySnapshot} (hrest : Open rest) : Stage kind url found [] rest found
  | fetching {now : Int64} {es : List Event} {rest : Call KeySnapshot}
      (h : (found.keys kind).fresh? now = none) (hes : es.length ≤ 1) (hrest : Open rest) :
      Stage kind url found (⟨.time, now⟩ :: es) rest found
  | storing {now : Int64} {es : List Event} {s : KeySnapshot} {next : Call KeySnapshot}
      (h : (found.keys kind).fresh? now = none) (hs : Fetching url es (.done (.ok s))) :
      Stage kind url found (⟨.time, now⟩ :: es) (.keep (Memory.replaceKeys kind s) next) found
  | stored {now : Int64} {es : List Event} {s : KeySnapshot}
      (h : (found.keys kind).fresh? now = none) (hs : Fetching url es (.done (.ok s))) :
      Stage kind url found (⟨.time, now⟩ :: es) (.done (.ok s))
        (Memory.replaceKeys kind s found)
  | served {es : List Event} {r : Except AuthError KeySnapshot}
      (h : Served url (found.keys kind) es r) (hes : es.length ≤ 2) :
      Stage kind url found es (.done r) found

variable {kind : Kind} {url : String} {m m' : Memory} {es : List Event} {r : Call KeySnapshot}

/-- What follows on a fetch: it changes the memory, or looks for what was kept before. -/
theorem refresh_eq (kind : Kind) (url : String) :
    refresh kind url = (fetch url).onResult fun
      | .ok s => .keep (Memory.replaceKeys kind s) (Call.ok s)
      | .error e => .look fun m =>
        match (m.keys kind).usable? with
        | some s => Call.ok s
        | none => Call.fail e := by
  rw [refresh]
  change ((fetch url).onResult ok).onResult _ = _
  rw [onResult_onResult]
  congr 1

theorem session_lasts (kind : Kind) (url : String) : (session kind url).Lasts 5 := by
  refine Lasts.bind (j := 1) (k := 4) lasts_memory ?_
  intro m
  refine Lasts.bind (j := 1) (k := 3) (lasts_question .time) ?_
  intro now
  split
  · exact .done _ 3
  rw [refresh_eq]
  refine (fetch_lasts url).onResult (k := 1) ?_
  intro r
  rcases r with e | s
  · refine .look ?_
    intro m
    split <;> exact .done _ 0
  · exact .keep (.done _ 0)

theorem reaches_refresh {now : Int64} (hf : (m.keys kind).fresh? now = none)
    (h : (refresh kind url).Reaches m es r m') :
    Stage kind url m (⟨.time, now⟩ :: es) r m' := by
  rw [refresh_eq] at h
  rcases reaches_onResult h with ⟨c, hd, hc, rfl⟩ | ⟨x, m₁, es₁, es₂, rfl, hc, h₁⟩
  · obtain ⟨hfetch, rfl⟩ := reaches_fetch hc
    cases hfetch with
    | sending => exact .fetching hf (Nat.zero_le 1) (.ask _ _)
    | received => exact .fetching hf (Nat.le_refl 1) (.ask _ _)
    | failed => exact absurd rfl (hd _)
    | got => exact absurd rfl (hd _)
  obtain ⟨hfetch, rfl⟩ := reaches_fetch hc
  rcases x with e | s
  · have he : Failed url es₁ e := hfetch.of_error
    have hlen : es₁.length = 1 := he.length
    rcases reaches_look h₁ with ⟨rfl, rfl, rfl⟩ | h₂
    · rw [List.append_nil]
      exact .fetching hf (Nat.le_of_eq hlen) (.look _)
    rcases hu : (m₁.keys kind).usable? with _ | s
    all_goals
      rw [hu] at h₂
      obtain ⟨rfl, rfl, rfl⟩ := reaches_done h₂
      rw [List.append_nil]
    · exact .served (.failed hf he hu) (by simp [hlen])
    · exact .served (.stale hf he hu) (by simp [hlen])
  · rcases reaches_keep h₁ with ⟨rfl, rfl, rfl⟩ | h₂
    · rw [List.append_nil]
      exact .storing hf hfetch
    obtain ⟨rfl, rfl, rfl⟩ := reaches_done h₂
    rw [List.append_nil]
    exact .stored hf hfetch

/-- Whatever a call was answered so far, it stands at one of the stages. -/
theorem reaches_session (h : (session kind url).Reaches m es r m') :
    Stage kind url m es r m' := by
  rcases reaches_look h with ⟨rfl, rfl, rfl⟩ | h₁
  · exact .starting (.look _)
  rcases reaches_ask h₁ with ⟨rfl, rfl, rfl⟩ | ⟨now, es, rfl, h₂⟩
  · exact .starting (.ask _ _)
  have h₃ : (match (m.keys kind).fresh? now with
    | some s => return s
    | none => refresh kind url).Reaches m es r m' := h₂
  rcases hf : (m.keys kind).fresh? now with _ | s
  all_goals rw [hf] at h₃
  · exact reaches_refresh hf h₃
  · obtain ⟨rfl, rfl, rfl⟩ := reaches_done h₃
    exact .served (.fresh hf) (Nat.le_succ 1)

end IdentityTokens.PublishedKeys
