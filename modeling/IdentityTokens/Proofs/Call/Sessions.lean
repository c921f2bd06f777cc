import IdentityTokens.Proofs.Call.Reach
import IdentityTokens.Proofs.Call.Turns

/-! # Sessions behind a gate

Where all calls stand behind one gate, the turns of many amount to sessions, one after the
other. Whoever is let in finds the memory as the last one left it, goes on as if it were
alone, and nobody else changes anything before it leaves. -/
namespace IdentityTokens

/-- What is left of a call behind a gate once it has its result. -/
def Call.leave {α : Type} (g : Gate) (r : Except AuthError α) : Call α := .exit g (.done r)

/-- A call that stays on one side of every gate. -/
def Deed.Gateless : Deed → Prop
  | .enter _ => False
  | .exit _ => False
  | _ => True

namespace Interleaving

open Call

variable {α : Type} {g : Gate} {body : Call α} {found : Memory} {s s' : Interleaving α}
  {t : Turn} {i j : Nat}

/-- A call that was let in, and what it found remembered then. -/
inductive Visit (g : Gate) (body : Call α) (found : Memory) (i : Nat) (s : Interleaving α) :
    Prop
  | inside (rest : Call α) (hin : s.inside g = some i)
      (hc : s.calls[i]? = some (rest.onResult (leave g)))
      (hr : body.Reaches found (own i s.events) rest s.memory)
  | left (r : Except AuthError α) (m : Memory) (hout : s.inside g ≠ some i)
      (hc : s.calls[i]? = some (.done r)) (hr : body.Reaches found (own i s.events) (.done r) m)

/-- A call that was not let in: it waits, or it was cancelled before. -/
inductive Unvisited (g : Gate) (body : Call α) (i : Nat) (s : Interleaving α) : Prop
  | waiting (hout : s.inside g ≠ some i) (hc : s.calls[i]? = some (body.behind g))
      (hown : own i s.events = [])
  | stopped (hout : s.inside g ≠ some i) (hc : s.calls[i]? = some (.fail .cancelled))
      (hown : own i s.events = [])

/-- Every call stands behind the gate, and only such calls are ever let in. -/
structure Sessions (g : Gate) (body : Call α) (s : Interleaving α) : Prop where
  stand : ∀ i, i < s.calls.length →
    Unvisited g body i s ∨ ∃ found, Visit g body found i s
  known : ∀ i, s.inside g = some i → i < s.calls.length

/-- What a turn of a call comes to that is not inside. -/
inductive OutsideTurn (g : Gate) (body : Call α) (i : Nat) (s : Interleaving α) :
    Interleaving α → Prop
  | idle : OutsideTurn g body i s s
  | stops (hout : s.inside g ≠ some i) (hc : s.calls[i]? = some (body.behind g)) :
      OutsideTurn g body i s (s.withRest i (.fail .cancelled))
  | letIn (hfree : s.inside g = none) (hc : s.calls[i]? = some (body.behind g))
      (hown : own i s.events = []) :
      OutsideTurn g body i s ((s.withRest i (body.onResult (leave g))).withInside g (some i))

/-- What a turn of the call comes to that is inside. -/
inductive InsideTurn (g : Gate) (rest : Call α) (i : Nat) (s : Interleaving α) :
    Interleaving α → Prop
  | asks (q : Question) (a : q.Answer) (next : q.Answer → Call α) (h : rest = .ask q next) :
      InsideTurn g rest i s { s.withRest i ((next a).onResult (leave g)) with
        events := s.events ++ [(i, ⟨q, a⟩)] }
  | goesOn (rest' : Call α) (m : Memory) (h : rest.Reaches s.memory [] rest' m) :
      InsideTurn g rest i s { s.withRest i (rest'.onResult (leave g)) with memory := m }
  | leaves (r : Except AuthError α) (h : rest = .done r) :
      InsideTurn g rest i s ((s.withRest i (.done r)).withInside g none)

theorem Sessions.outsideTurn (hs : Sessions g body s) (hout : s.inside g ≠ some t.call) :
    OutsideTurn g body t.call s (s.step t) := by
  rcases Nat.lt_or_ge t.call s.calls.length with hlt | hge
  · rcases hs.stand t.call hlt with
    (⟨-, hc, hown⟩ | ⟨-, hc⟩) | ⟨found, ⟨-, hin⟩ | ⟨r, m, -, hc⟩⟩
    · rw [step_enter hc]
      split
      · exact .stops hout hc
      · split
        · exact .letIn ‹_› hc hown
        · exact .idle
    · rw [step_done hc]
      exact .idle
    · exact absurd hin hout
    · rw [step_done hc]
      exact .idle
  · rw [step_none (List.getElem?_eq_none hge)]
    exact .idle

theorem insideTurn {rest : Call α} (hrest : rest.Only Deed.Gateless)
    (hc : s.calls[t.call]? = some (rest.onResult (leave g))) :
    InsideTurn g rest t.call s (s.step t) := by
  cases rest with
  | done r => rw [step_exit hc]; exact .leaves r rfl
  | ask q next => rw [step_ask hc]; exact .asks q _ next rfl
  | look next =>
    rw [step_look hc]
    exact .goesOn (next s.memory) s.memory (.look (.start _ _))
  | keep change next =>
    rw [step_keep hc]
    exact .goesOn next (change s.memory) (.keep (.start _ _))
  | enter g' next => exact hrest.1.elim
  | exit g' next => exact hrest.1.elim

/-! ## Everybody else stays as they are -/

/-- The call that is inside, as a visit. -/
theorem Sessions.visit (hs : Sessions g body s) (hin : s.inside g = some i) :
    ∃ found rest, s.calls[i]? = some (rest.onResult (leave g)) ∧
      body.Reaches found (own i s.events) rest s.memory := by
  rcases hs.stand i (hs.known i hin) with
    (⟨hout⟩ | ⟨hout⟩) | ⟨found, ⟨rest, -, hc, hr⟩ | ⟨-, -, hout⟩⟩
  · exact absurd hin hout
  · exact absurd hin hout
  · exact ⟨found, rest, hc, hr⟩
  · exact absurd hin hout

/-- A turn of another call neither lets a call in nor out, and nobody but the one inside
changes what is remembered. -/
theorem Sessions.step_other (hs : Sessions g body s) (hb : body.Only Deed.Gateless)
    (hi : i ≠ t.call) :
    ((s.step t).inside g = some i ↔ s.inside g = some i) ∧
      (s.inside g = some i → (s.step t).memory = s.memory) := by
  by_cases hin : s.inside g = some t.call
  -- Only the one inside may change the memory, and that is not the call looked at.
  · have hno : s.inside g ≠ some i := by
      rw [hin]
      exact fun h => hi (Option.some.inj h).symm
    obtain ⟨found, rest, hc, hr⟩ := hs.visit hin
    have ht := insideTurn (hr.only hb) hc
    generalize s.step t = s' at ht ⊢
    cases ht with
    | asks | goesOn => exact ⟨Iff.rfl, fun h => absurd h hno⟩
    | leaves =>
      refine ⟨?_, fun h => absurd h hno⟩
      simp [withInside, hno]
  · have ht := hs.outsideTurn hin
    generalize s.step t = s' at ht ⊢
    cases ht with
    | idle | stops => exact ⟨Iff.rfl, fun _ => rfl⟩
    | letIn hfree =>
      refine ⟨?_, fun _ => rfl⟩
      simp [withInside, hfree, Ne.symm hi]

/-! ## Results -/

theorem Unvisited.result? (h : Unvisited g body i s) :
    s.result? i = none ∨ s.result? i = some (.error .cancelled) := by
  rw [Interleaving.result?]
  rcases h with ⟨-, hc⟩ | ⟨-, hc⟩
  · rw [hc]
    exact .inl rfl
  · rw [hc]
    exact .inr rfl

theorem Unvisited.own_eq_nil (h : Unvisited g body i s) : own i s.events = [] := by
  rcases h with ⟨-, -, hown⟩ | ⟨-, -, hown⟩ <;> exact hown

/-- A visitor that has a result got that far by itself. -/
theorem Visit.of_result? {r : Except AuthError α} (h : Visit g body found i s)
    (hr : s.result? i = some r) : ∃ m, body.Reaches found (own i s.events) (.done r) m := by
  rw [result?] at hr
  cases h with
  | inside rest _ hc =>
    rw [hc] at hr
    cases rest <;> cases hr
  | left r' m _ hc hreach =>
    rw [hc] at hr
    cases hr
    exact ⟨m, hreach⟩

/-! ## Sessions over whole runs -/

theorem Visit.step (hs : Sessions g body s) (hb : body.Only Deed.Gateless)
    (h : Visit g body found i s) : Visit g body found i (s.step t) := by
  by_cases hi : i = t.call
  -- A turn of its own takes a visit further; turns of others leave all it depends on.
  · subst hi
    cases h with
    | inside rest hin hc hr =>
      have ht := insideTurn (hr.only hb) hc
      generalize s.step t = s' at ht ⊢
      cases ht with
      | asks q a next h =>
        subst h
        refine .inside (next a) hin (withRest_self hc) ?_
        rw [own_append, own_self]
        exact hr.trans (.ask a (.start _ _))
      | goesOn rest' m h =>
        refine .inside rest' hin (withRest_self hc) ?_
        have hr' := hr.trans h
        rwa [List.append_nil] at hr'
      | leaves r h =>
        subst h
        exact .left r s.memory (by simp [withInside]) (withRest_self hc) hr
    | left r m hout hc hr =>
      rw [step_done hc]
      exact .left r m hout hc hr
  · obtain ⟨hinside, hmemory⟩ := hs.step_other hb hi
    cases h with
    | inside rest hin hc hr =>
      refine .inside rest (hinside.mpr hin) ((calls_step_other hi).trans hc) ?_
      rwa [own_step_other hi, hmemory hin]
    | left r m hout hc hr =>
      refine .left r m ((not_congr hinside).mpr hout) ((calls_step_other hi).trans hc) ?_
      rwa [own_step_other hi]

/-- The turn lets its call in. -/
def LetsIn (g : Gate) (t : Turn) (s : Interleaving α) : Prop :=
  s.inside g = none ∧ (s.step t).inside g = some t.call

/-- Whoever is not inside yet stays outside, or is let in by its own turn, and then starts
from what is remembered at that moment. -/
theorem Unvisited.step (hs : Sessions g body s) (hb : body.Only Deed.Gateless)
    (h : Unvisited g body i s) :
    Unvisited g body i (s.step t) ∨
      t.call = i ∧ LetsIn g t s ∧ Visit g body s.memory i (s.step t) := by
  by_cases hi : i = t.call
  · subst hi
    cases h with
    | waiting hout hc hown =>
      rw [LetsIn]
      have ht := hs.outsideTurn hout
      generalize s.step t = s' at ht ⊢
      cases ht with
      | idle => exact .inl (.waiting hout hc hown)
      | stops => exact .inl (.stopped hout (withRest_self hc) hown)
      | letIn hfree =>
        have hin : ((s.withRest t.call (body.onResult (leave g))).withInside g
            (some t.call)).inside g = some t.call := if_pos rfl
        refine .inr ⟨rfl, ⟨hfree, hin⟩, .inside body hin (withRest_self hc) ?_⟩
        change body.Reaches s.memory (own t.call s.events) body s.memory
        rw [hown]
        exact .start _ _
    | stopped hout hc hown =>
      rw [step_done hc]
      exact .inl (.stopped hout hc hown)
  · have hinside := not_congr (hs.step_other hb hi).1
    cases h with
    | waiting hout hc hown =>
      exact .inl (.waiting (hinside.mpr hout) ((calls_step_other hi).trans hc)
        ((own_step_other hi).trans hown))
    | stopped hout hc hown =>
      exact .inl (.stopped (hinside.mpr hout) ((calls_step_other hi).trans hc)
        ((own_step_other hi).trans hown))

theorem Sessions.step (hs : Sessions g body s) (hb : body.Only Deed.Gateless) (t : Turn) :
    Sessions g body (s.step t) := by
  constructor
  · intro i hi
    rw [length_step] at hi
    rcases hs.stand i hi with h | ⟨found, h⟩
    · rcases h.step hs hb with h | ⟨-, -, h⟩
      · exact .inl h
      · exact .inr ⟨s.memory, h⟩
    · exact .inr ⟨found, h.step hs hb⟩
  · intro i hin
    rw [length_step]
    by_cases hi : i = t.call
    · subst hi
      refine Nat.lt_of_not_le ?_
      intro hge
      rw [step_none (List.getElem?_eq_none hge)] at hin
      exact Nat.not_lt_of_le hge (hs.known _ hin)
    · exact hs.known i ((hs.step_other hb hi).1.mp hin)

theorem Sessions.run (hs : Sessions g body s) (hb : body.Only Deed.Gateless) (ts : List Turn) :
    Sessions g body (s.run ts) := by
  induction ts generalizing s with
  | nil => exact hs
  | cons t ts ih => exact ih (hs.step hb t)

theorem Visit.run (hs : Sessions g body s) (hb : body.Only Deed.Gateless)
    (h : Visit g body found i s) (ts : List Turn) : Visit g body found i (s.run ts) := by
  induction ts generalizing s with
  | nil => exact h
  | cons t ts ih => exact ih (hs.step hb t) (h.step hs hb)

/-- A call that is not outside any more was let in at some turn. -/
theorem Unvisited.run (hs : Sessions g body s) (hb : body.Only Deed.Gateless)
    (h : Unvisited g body i s) (ts : List Turn) :
    Unvisited g body i (s.run ts) ∨
      ∃ pre t post, ts = pre ++ t :: post ∧ t.call = i ∧ LetsIn g t (s.run pre) := by
  induction ts generalizing s with
  | nil => exact .inl h
  | cons t ts ih =>
    rcases h.step (t := t) hs hb with h | ⟨hi, hin, -⟩
    · rcases ih (hs.step hb t) h with h | ⟨pre, t', post, rfl, hi, hin⟩
      · exact .inl h
      · exact .inr ⟨t :: pre, t', post, rfl, hi, hin⟩
    · exact .inr ⟨[], t, ts, rfl, hi, hin⟩

/-- What was remembered when a call was let in is what its visit starts from, however the
run goes on. -/
theorem LetsIn.visit (hs : Sessions g body s) (hb : body.Only Deed.Gateless)
    (h : LetsIn g t s) (post : List Turn) :
    Visit g body s.memory t.call ((s.step t).run post) := by
  have hout : s.inside g ≠ some t.call := by
    rw [h.1]
    exact nofun
  have hknown : t.call < s.calls.length := by
    have hlt := (hs.step hb t).known t.call h.2
    rwa [length_step] at hlt
  refine Visit.run (hs.step hb t) hb ?_ post
  rcases hs.stand t.call hknown with ho | ⟨found, hv⟩
  · rcases ho.step hs hb with (⟨hno⟩ | ⟨hno⟩) | ⟨-, -, hv⟩
    · exact absurd h.2 hno
    · exact absurd h.2 hno
    · exact hv
  · cases hv with
    | inside _ hin => exact absurd hin hout
    | left _ _ _ hc =>
      have hin := h.2
      rw [step_done hc] at hin
      exact absurd hin hout

/-- Whoever is inside gets a result once it took enough turns, however many others are
taken in between. -/
theorem ends_of_inside {rest : Call α} {k : Nat} (hl : rest.Lasts k)
    (hc : s.calls[i]? = some (rest.onResult (leave g))) (ts : List Turn)
    (hts : k < ts.countP (·.call = i)) : ∃ r, (s.run ts).result? i = some r := by
  induction ts generalizing s rest k with
  | nil => exact absurd hts (Nat.not_lt_zero k)
  | cons t ts ih =>
    by_cases hi : t.call = i
    · subst hi
      rw [List.countP_cons_of_pos (by simp)] at hts
      cases hl with
      | done r =>
        refine ⟨r, result?_run (result?_of_done ?_) ts⟩
        rw [step_exit hc]
        exact withRest_self hc
      | @ask q _ _ h =>
        refine ih (h (t.answers q)) ?_ (Nat.lt_of_succ_lt_succ hts)
        rw [step_ask hc]
        exact withRest_self hc
      | look h =>
        refine ih (h s.memory) ?_ (Nat.lt_of_succ_lt_succ hts)
        rw [step_look hc]
        exact withRest_self hc
      | keep h =>
        refine ih h ?_ (Nat.lt_of_succ_lt_succ hts)
        rw [step_keep hc]
        exact withRest_self hc
    · rw [List.countP_cons_of_neg (by simpa using hi)] at hts
      exact ih hl ((calls_step_other (Ne.symm hi)).trans hc) hts

theorem Visit.ends {k : Nat} (h : Visit g body found i s) (hl : body.Lasts k) (ts : List Turn)
    (hts : k < ts.countP (·.call = i)) : ∃ r, (s.run ts).result? i = some r := by
  cases h with
  | inside rest _ hc hr => exact ends_of_inside (hr.lasts hl) hc ts hts
  | left r m _ hc => exact ⟨r, result?_run (result?_of_done hc) ts⟩

theorem unvisited_start (g : Gate) (body : Call α) (m : Memory) {n : Nat} (hi : i < n) :
    Unvisited g body i (start m (List.replicate n (body.behind g))) :=
  .waiting nofun (List.getElem?_replicate_of_lt hi) rfl

theorem sessions_start (g : Gate) (body : Call α) (m : Memory) (n : Nat) :
    Sessions g body (start m (List.replicate n (body.behind g))) := by
  refine ⟨fun i hi => .inl (unvisited_start g body m ?_), fun i hin => (nomatch hin)⟩
  rwa [start, List.length_replicate] at hi

end Interleaving

end IdentityTokens
