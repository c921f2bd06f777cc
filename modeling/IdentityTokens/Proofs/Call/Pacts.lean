import Mathlib.Data.List.Induction
import IdentityTokens.Proofs.Call.Deeds
import IdentityTokens.Proofs.Call.Turns

/-! # Calls that abide by a pact

Calls made at one time can rely on what they all promise each other: what becomes of the memory
while somebody is behind a gate, and while they are not. Whether a call abides by such a pact is
read off the call as it is built; on the way it is said what the call may do where it stands, and
what it may end with there. If all calls abide, then so they do after every turn, whatever turns
they take. -/
namespace IdentityTokens

/-- Where a call stands: whether it is behind the gate of the pact, what it was told and what it
last knew to be remembered. -/
structure Standing where
  inside : Bool
  told : List Event
  memory : Memory

namespace Standing

def start (m : Memory) : Standing := ⟨false, [], m⟩

def tell (x : Standing) (e : Event) : Standing := { x with told := x.told ++ [e] }

def see (x : Standing) (m : Memory) : Standing := { x with memory := m }

def enter (x : Standing) : Standing := { x with inside := true }

def leave (x : Standing) : Standing := { x with inside := false }

@[simp] theorem tell_told (x : Standing) (e : Event) : (x.tell e).told = x.told ++ [e] := rfl

@[simp] theorem tell_inside (x : Standing) (e : Event) : (x.tell e).inside = x.inside := rfl

@[simp] theorem tell_memory (x : Standing) (e : Event) : (x.tell e).memory = x.memory := rfl

@[simp] theorem see_told (x : Standing) (m : Memory) : (x.see m).told = x.told := rfl

@[simp] theorem see_inside (x : Standing) (m : Memory) : (x.see m).inside = x.inside := rfl

@[simp] theorem see_memory (x : Standing) (m : Memory) : (x.see m).memory = m := rfl

@[simp] theorem enter_told (x : Standing) : x.enter.told = x.told := rfl

@[simp] theorem enter_inside (x : Standing) : x.enter.inside = true := rfl

@[simp] theorem enter_memory (x : Standing) : x.enter.memory = x.memory := rfl

@[simp] theorem leave_told (x : Standing) : x.leave.told = x.told := rfl

@[simp] theorem leave_inside (x : Standing) : x.leave.inside = false := rfl

@[simp] theorem leave_memory (x : Standing) : x.leave.memory = x.memory := rfl

end Standing

/-- What calls promise each other about the memory. -/
structure Pact where
  gate : Option Gate
  /-- What others may make of the memory while a call is inside, or is not. -/
  bears : Bool → Memory → Memory → Prop
  /-- What a call may make of the memory itself. -/
  keeps : Standing → Memory → Memory → Prop
  refl : ∀ inside m, bears inside m m
  trans : ∀ {inside m m' m''}, bears inside m m' → bears inside m' m'' → bears inside m m''
  of_inside : ∀ {m m'}, bears true m m' → bears false m m'
  /-- What one call does the others have to bear; only one of them is ever inside. -/
  bears_of_keeps : ∀ {x m m'}, keeps x m m' → bears (!x.inside) m m'

/-- No promises at all. -/
def Pact.free : Pact where
  gate := none
  bears := fun _ _ _ => True
  keeps := fun _ _ _ => True
  refl := fun _ _ => trivial
  trans := fun _ _ => trivial
  of_inside := fun _ => trivial
  bears_of_keeps := fun _ => trivial

namespace Call

variable {α β : Type} {p : Pact} {P P' : Standing → Deed → Prop}
  {Q Q' : Standing → Except AuthError α → Prop} {R : Standing → Except AuthError β → Prop}
  {x : Standing}

/-- From where it stands a call keeps the pact, does only deeds that it may do where it stands
then, and ends only with what it may end with there, as long as the others keep the pact. -/
def Abides (p : Pact) (P : Standing → Deed → Prop) (Q : Standing → Except AuthError α → Prop) :
    Call α → Standing → Prop
  | .done r, x => Q x r
  | .ask q next, x => P x (.ask q) ∧ ∀ a, (next a).Abides p P Q (x.tell ⟨q, a⟩)
  | .look next, x =>
    P x .look ∧ ∀ m, p.bears x.inside x.memory m → (next m).Abides p P Q (x.see m)
  | .keep change next, x =>
    P x .keep ∧ ∀ m, p.bears x.inside x.memory m →
      p.keeps (x.see m) m (change m) ∧ next.Abides p P Q (x.see (change m))
  | .enter g next, x =>
    P x (.enter g) ∧
      if p.gate = some g then
        x.inside = false ∧ (next false).Abides p P Q x ∧
          ∀ m, p.bears false x.memory m → (next true).Abides p P Q (x.see m).enter
      else ∀ entered, (next entered).Abides p P Q x
  | .exit g next, x =>
    P x (.exit g) ∧
      if p.gate = some g then x.inside = true ∧ next.Abides p P Q x.leave
      else next.Abides p P Q x

theorem Abides.mono {c : Call α} (hP : ∀ x d, P x d → P' x d) (hQ : ∀ x r, Q x r → Q' x r)
    (h : c.Abides p P Q x) : c.Abides p P' Q' x := by
  induction c generalizing x with
  | done r => exact hQ x r h
  | ask q next ih => exact ⟨hP _ _ h.1, fun a => ih a (h.2 a)⟩
  | look next ih => exact ⟨hP _ _ h.1, fun m hm => ih m (h.2 m hm)⟩
  | keep change next ih =>
    exact ⟨hP _ _ h.1, fun m hm => ⟨(h.2 m hm).1, ih (h.2 m hm).2⟩⟩
  | enter g next ih =>
    refine ⟨hP _ _ h.1, ?_⟩
    have h' := h.2
    split at h'
    · rw [if_pos ‹_›]
      exact ⟨h'.1, ih false h'.2.1, fun m hm => ih true (h'.2.2 m hm)⟩
    · rw [if_neg ‹_›]
      exact fun entered => ih entered (h' entered)
  | exit g next ih =>
    refine ⟨hP _ _ h.1, ?_⟩
    have h' := h.2
    split at h'
    · rw [if_pos ‹_›]
      exact ⟨h'.1, ih h'.2⟩
    · rw [if_neg ‹_›]
      exact ih h'

/-- A composed call abides if its first part does and ends only where the second part abides
that goes on from there. -/
theorem abides_onResult (c : Call α) (f : Except AuthError α → Call β) :
    (c.onResult f).Abides p P R x ↔ c.Abides p P (fun y r => (f r).Abides p P R y) x := by
  induction c generalizing x with
  | done r => exact Iff.rfl
  | ask q next ih => exact and_congr_right fun _ => forall_congr' fun a => ih a
  | look next ih =>
    exact and_congr_right fun _ => forall_congr' fun m => imp_congr_right fun _ => ih m
  | keep change next ih =>
    exact and_congr_right fun _ => forall_congr' fun m => imp_congr_right fun _ =>
      and_congr_right fun _ => ih
  | enter g next ih =>
    refine and_congr_right fun _ => ?_
    split
    · exact and_congr_right fun _ => and_congr (ih false)
        (forall_congr' fun m => imp_congr_right fun _ => ih true)
    · exact forall_congr' fun entered => ih entered
  | exit g next ih =>
    refine and_congr_right fun _ => ?_
    split
    · exact and_congr_right fun _ => ih
    · exact ih

theorem Abides.onResult {c : Call α} {f : Except AuthError α → Call β} (hc : c.Abides p P Q x)
    (hf : ∀ y r, Q y r → (f r).Abides p P R y) : (c.onResult f).Abides p P R x :=
  (abides_onResult c f).mpr (hc.mono (fun _ _ => id) hf)

/-- The second part is gone on with only where the first one succeeds. -/
theorem Abides.bind {c : Call α} {f : α → Call β} (hc : c.Abides p P Q x)
    (hf : ∀ y a, Q y (.ok a) → (f a).Abides p P R y)
    (herror : ∀ y e, Q y (.error e) → R y (.error e)) : (c >>= f).Abides p P R x :=
  hc.onResult fun y r h => match r with
    | .ok a => hf y a h
    | .error e => herror y e h

theorem Abides.mapError {c : Call α} {f : AuthError → AuthError} (hc : c.Abides p P Q x)
    (hr : ∀ y r, Q y r → Q' y (r.mapError f)) : (c.mapError f).Abides p P Q' x :=
  hc.onResult hr

theorem abides_map {c : Call α} {f : α → β}
    (hc : c.Abides p P (fun y r => R y (r.map f)) x) : (f <$> c).Abides p P R x :=
  hc.onResult fun _ r h => match r with
    | .ok _ => h
    | .error _ => h

/-- Behind the gate of the pact a call can rely on what is promised to those inside. -/
theorem abides_behind {g : Gate} {c : Call α} (hg : p.gate = some g) (henter : P x (.enter g))
    (hout : x.inside = false) (hstopped : Q x (.error .cancelled))
    (hc : ∀ m, p.bears false x.memory m →
      c.Abides p P (fun y r => P y (.exit g) ∧ y.inside = true ∧ Q y.leave r) (x.see m).enter) :
    (c.behind g).Abides p P Q x := by
  refine ⟨henter, ?_⟩
  rw [if_pos hg]
  refine ⟨hout, hstopped, fun m hm => (hc m hm).onResult ?_⟩
  rintro y r ⟨hexit, hin, hleft⟩
  refine ⟨hexit, ?_⟩
  rw [if_pos hg]
  exact ⟨hin, hleft⟩

/-- What becomes of a request: it is not sent, or its call is cancelled, or it is answered. -/
theorem abides_send {built : Except TransportFault Request}
    {Q : Standing → Except AuthError Response → Prop}
    (hfault : ∀ fault, built = .error fault → P x (.ask .goAhead) ∧
      Q (x.tell ⟨.goAhead, none⟩) (.error .cancelled) ∧
      Q (x.tell ⟨.goAhead, some ()⟩) (.error fault.error))
    (hsent : ∀ request, built = .ok request → P x (.ask (.exchange request)) ∧
      Q (x.tell ⟨.exchange request, none⟩) (.error .cancelled) ∧
      ∀ outcome, Q (x.tell ⟨.exchange request, some outcome⟩)
        ((request.received outcome).mapError TransportFault.error)) :
    (Web.send built).Abides p P Q x := by
  cases built with
  | error fault =>
    obtain ⟨hP, hstopped, hgone⟩ := hfault fault rfl
    exact ⟨hP, fun a => match a with
      | none => hstopped
      | some () => hgone⟩
  | ok request =>
    obtain ⟨hP, hstopped, hanswered⟩ := hsent request rfl
    exact ⟨hP, fun a => match a with
      | none => hstopped
      | some outcome => hanswered outcome⟩

/-- What is asked may be asked where the call stands, whatever it was told before. -/
theorem Only.abides {D : Deed → Prop} {I : List Event → Prop} {c : Call α} (hc : c.Only D)
    (hI : ∀ es q a, I es → D (.ask q) → I (es ++ [⟨q, a⟩]))
    (hP : ∀ x d, I x.told → D d → P x d) (hx : I x.told) :
    c.Abides .free P (fun y _ => I y.told) x := by
  induction c generalizing x with
  | done r => exact hx
  | ask q next ih => exact ⟨hP x _ hx hc.1, fun a => ih a (hc.2 a) (hI _ q a hx hc.1)⟩
  | look next ih => exact ⟨hP x _ hx hc.1, fun m _ => ih m (hc.2 m) hx⟩
  | keep change next ih => exact ⟨hP x _ hx hc.1, fun m _ => ⟨trivial, ih hc.2 hx⟩⟩
  | enter g next ih => exact ⟨hP x _ hx hc.1, fun entered => ih entered (hc.2 entered) hx⟩
  | exit g next ih => exact ⟨hP x _ hx hc.1, ih hc.2 hx⟩

end Call

namespace Interleaving

variable {α : Type} {p : Pact} {P : Nat → Standing → Deed → Prop}
  {Q : Nat → Standing → Except AuthError α → Prop} {s : Interleaving α} {t : Turn} {i : Nat}
  {x : Standing}

/-- A call stands among others as its standing tells, but for what the others did since to the
memory. -/
structure Fits (p : Pact) (s : Interleaving α) (i : Nat) (x : Standing) : Prop where
  inside : x.inside = true ↔ ∃ g, p.gate = some g ∧ s.inside g = some i
  told : x.told = own i s.events
  memory : p.bears x.inside x.memory s.memory

/-- Every call abides by the pact from where it stands. -/
def Abiding (p : Pact) (P : Nat → Standing → Deed → Prop)
    (Q : Nat → Standing → Except AuthError α → Prop) (s : Interleaving α) : Prop :=
  ∀ i c, s.calls[i]? = some c → ∃ x, Fits p s i x ∧ c.Abides p (P i) (Q i) x

theorem abiding_start {m : Memory} {calls : List (Call α)}
    (h : ∀ (i : Nat) (c : Call α), calls[i]? = some c → c.Abides p (P i) (Q i) (.start m)) :
    Abiding p P Q (start m calls) := by
  intro i c hc
  refine ⟨.start m, ⟨?_, rfl, p.refl _ _⟩, h i c hc⟩
  constructor
  · exact nofun
  · rintro ⟨g, -, hin⟩
    exact nomatch hin

/-! ## What a turn does to others -/

/-- A turn leaves every other call on its side of the gate. -/
theorem Abiding.inside_step_other (h : Abiding p P Q s) (hi : i ≠ t.call) {g : Gate}
    (hg : p.gate = some g) : (s.step t).inside g = some i ↔ s.inside g = some i := by
  rcases hc : s.calls[t.call]? with _ | c
  · rw [step_none hc]
  cases c with
  | done r => rw [step_done hc]
  | ask q next => rw [step_ask hc]; exact Iff.rfl
  | look next => rw [step_look hc]; exact Iff.rfl
  | keep change next => rw [step_keep hc]; exact Iff.rfl
  | enter g' next =>
    rw [step_enter hc]
    split
    · exact Iff.rfl
    · split
      · rename_i hfree
        by_cases hgg : g = g'
        · subst hgg
          simp [withInside, hfree, Ne.symm hi]
        · simp [withInside, withRest, hgg]
      · exact Iff.rfl
  | exit g' next =>
    rw [step_exit hc]
    by_cases hgg : g = g'
    -- Whoever leaves was inside itself, so nobody else was.
    · subst hgg
      obtain ⟨x, hx, habides⟩ := h t.call _ hc
      have hin := habides.2
      rw [if_pos hg] at hin
      obtain ⟨g', hg', hinside⟩ := hx.inside.mp hin.1
      cases hg.symm.trans hg'
      have hother : s.inside g ≠ some i := by
        rw [hinside]
        exact fun heq => hi (Option.some.inj heq).symm
      simp [withInside, hother]
    · simp [withInside, withRest, hgg]

/-- What a turn makes of the memory is within what its call may do. -/
theorem Abiding.memory_step (h : Abiding p P Q s) (t : Turn) :
    (s.step t).memory = s.memory ∨
      ∃ x, Fits p s t.call x ∧ P t.call x .keep ∧ p.keeps (x.see s.memory) s.memory (s.step t).memory := by
  rcases hc : s.calls[t.call]? with _ | c
  · exact .inl (by rw [step_none hc])
  cases c with
  | done r => exact .inl (by rw [step_done hc])
  | ask q next => exact .inl (by rw [step_ask hc]; rfl)
  | look next => exact .inl (by rw [step_look hc]; rfl)
  | keep change next =>
    obtain ⟨x, hx, habides⟩ := h t.call _ hc
    refine .inr ⟨x, hx, habides.1, ?_⟩
    rw [step_keep hc]
    exact (habides.2 s.memory hx.memory).1
  | enter g' next =>
    refine .inl ?_
    rw [step_enter hc]
    split
    · rfl
    · split <;> rfl
  | exit g' next => exact .inl (by rw [step_exit hc]; rfl)

/-- What a turn adds to the events may be asked by its call. -/
theorem Abiding.events_step (h : Abiding p P Q s) (t : Turn) :
    (s.step t).events = s.events ∨
      ∃ q x, Fits p s t.call x ∧ P t.call x (.ask q) ∧ (s.step t).memory = s.memory ∧
        (s.step t).events = s.events ++ [(t.call, ⟨q, t.answers q⟩)] := by
  rcases hc : s.calls[t.call]? with _ | c
  · exact .inl (by rw [step_none hc])
  cases c with
  | done r => exact .inl (by rw [step_done hc])
  | ask q next =>
    obtain ⟨x, hx, habides⟩ := h t.call _ hc
    exact .inr ⟨q, x, hx, habides.1, by rw [step_ask hc]; rfl, by rw [step_ask hc]⟩
  | look next => exact .inl (by rw [step_look hc]; rfl)
  | keep change next => exact .inl (by rw [step_keep hc]; rfl)
  | enter g' next =>
    refine .inl ?_
    rw [step_enter hc]
    split
    · rfl
    · split <;> rfl
  | exit g' next => exact .inl (by rw [step_exit hc]; rfl)

theorem Abiding.fits_step_other (h : Abiding p P Q s) (hi : i ≠ t.call) (hx : Fits p s i x) :
    Fits p (s.step t) i x := by
  have hinside : x.inside = true ↔ ∃ g, p.gate = some g ∧ (s.step t).inside g = some i := by
    rw [hx.inside]
    exact exists_congr fun g => and_congr_right fun hg => (h.inside_step_other hi hg).symm
  refine ⟨hinside, hx.told.trans (own_step_other hi).symm, p.trans hx.memory ?_⟩
  rcases h.memory_step t with heq | ⟨y, hy, -, hkeeps⟩
  · rw [heq]
    exact p.refl _ _
  have hbears := p.bears_of_keeps hkeeps
  rw [Standing.see_inside] at hbears
  cases hyin : y.inside with
  | true =>
    rw [hyin] at hbears
    -- The one who changes the memory is inside, so this call is not.
    obtain ⟨g, hg, hin⟩ := hy.inside.mp hyin
    have hout : x.inside = false := by
      refine Bool.eq_false_iff.mpr fun hxin => ?_
      obtain ⟨g', hg', hin'⟩ := hx.inside.mp hxin
      cases hg.symm.trans hg'
      exact hi (Option.some.inj (hin'.symm.trans hin))
    rw [hout]
    exact hbears
  | false =>
    rw [hyin] at hbears
    cases x.inside with
    | true => exact hbears
    | false => exact p.of_inside hbears

/-! ## Every turn keeps the pact -/

theorem Abiding.step_self (h : Abiding p P Q s) {c : Call α}
    (hc : (s.step t).calls[t.call]? = some c) :
    ∃ x, Fits p (s.step t) t.call x ∧ c.Abides p (P t.call) (Q t.call) x := by
  rcases hc' : s.calls[t.call]? with _ | c'
  · rw [step_none hc', hc'] at hc
    cases hc
  obtain ⟨x, hx, habides⟩ := h t.call c' hc'
  cases c' with
  | done r =>
    rw [step_done hc'] at hc ⊢
    cases hc'.symm.trans hc
    exact ⟨x, hx, habides⟩
  | ask q next =>
    rw [step_ask hc'] at hc ⊢
    cases (withRest_self hc').symm.trans hc
    refine ⟨x.tell ⟨q, t.answers q⟩, ⟨hx.inside, ?_, hx.memory⟩, habides.2 (t.answers q)⟩
    rw [own_append, own_self, Standing.tell_told, hx.told]
  | look next =>
    rw [step_look hc'] at hc ⊢
    cases (withRest_self hc').symm.trans hc
    exact ⟨x.see s.memory, ⟨hx.inside, hx.told, p.refl _ _⟩, habides.2 s.memory hx.memory⟩
  | keep change next =>
    rw [step_keep hc'] at hc ⊢
    cases (withRest_self hc').symm.trans hc
    exact ⟨x.see (change s.memory), ⟨hx.inside, hx.told, p.refl _ _⟩,
      (habides.2 s.memory hx.memory).2⟩
  | enter g next =>
    have hnext := habides.2
    rw [step_enter hc'] at hc ⊢
    split at hnext
    · rename_i hg
      obtain ⟨hout, hstopped, hentered⟩ := hnext
      split at hc
      · rw [if_pos ‹_›]
        cases (withRest_self hc').symm.trans hc
        exact ⟨x, ⟨hx.inside, hx.told, hx.memory⟩, hstopped⟩
      rw [if_neg ‹_›]
      split at hc
      · rw [if_pos ‹_›]
        cases (withRest_self hc').symm.trans hc
        have hmemory := hx.memory
        rw [hout] at hmemory
        exact ⟨(x.see s.memory).enter,
          ⟨iff_of_true rfl ⟨g, hg, if_pos rfl⟩, hx.told, p.refl _ _⟩, hentered s.memory hmemory⟩
      · rw [if_neg ‹_›]
        cases hc'.symm.trans hc
        exact ⟨x, hx, habides⟩
    · rename_i hg
      have hother {g' : Gate} (hg' : p.gate = some g') : g' ≠ g := fun heq => hg (heq ▸ hg')
      split at hc
      · rw [if_pos ‹_›]
        cases (withRest_self hc').symm.trans hc
        exact ⟨x, ⟨hx.inside, hx.told, hx.memory⟩, hnext false⟩
      rw [if_neg ‹_›]
      split at hc
      · rw [if_pos ‹_›]
        cases (withRest_self hc').symm.trans hc
        refine ⟨x, ⟨hx.inside.trans ?_, hx.told, hx.memory⟩, hnext true⟩
        exact exists_congr fun g' => and_congr_right fun hg' => by
          simp [withInside, withRest, hother hg']
      · rw [if_neg ‹_›]
        cases hc'.symm.trans hc
        exact ⟨x, hx, habides⟩
  | exit g next =>
    have hnext := habides.2
    rw [step_exit hc'] at hc ⊢
    cases (withRest_self hc').symm.trans hc
    split at hnext
    · rename_i hg
      obtain ⟨hin, hleft⟩ := hnext
      have hmemory := hx.memory
      rw [hin] at hmemory
      refine ⟨x.leave, ⟨iff_of_false nofun ?_, hx.told, p.of_inside hmemory⟩, hleft⟩
      rintro ⟨g', hg', hin'⟩
      cases hg.symm.trans hg'
      simp [withInside] at hin'
    · rename_i hg
      have hother {g' : Gate} (hg' : p.gate = some g') : g' ≠ g := fun heq => hg (heq ▸ hg')
      refine ⟨x, ⟨hx.inside.trans ?_, hx.told, hx.memory⟩, hnext⟩
      exact exists_congr fun g' => and_congr_right fun hg' => by
        simp [withInside, withRest, hother hg']

theorem Abiding.step (h : Abiding p P Q s) (t : Turn) : Abiding p P Q (s.step t) := by
  intro i c hc
  by_cases hi : i = t.call
  · subst hi
    exact h.step_self hc
  · rw [calls_step_other hi] at hc
    obtain ⟨x, hx, habides⟩ := h i c hc
    exact ⟨x, h.fits_step_other hi hx, habides⟩

theorem Abiding.run (h : Abiding p P Q s) (ts : List Turn) : Abiding p P Q (s.run ts) := by
  induction ts generalizing s with
  | nil => exact h
  | cons t ts ih => exact ih (h.step t)

/-! ## What follows for a run -/

/-- A call ends only with what it may end with where it stands. -/
theorem Abiding.result (h : Abiding p P Q s) {r : Except AuthError α}
    (hr : s.result? i = some r) : ∃ x, Fits p s i x ∧ Q i x r := by
  rw [result?] at hr
  split at hr
  · rename_i r' hc
    cases hr
    exact h i _ hc
  · cases hr

/-- A call that may do nothing more where it stands has ended. -/
theorem Abiding.ended (h : Abiding p P Q s) {c : Call α} (hc : s.calls[i]? = some c)
    (hnone : ∀ x d, x.told = own i s.events → ¬ P i x d) :
    ∃ x r, x.told = own i s.events ∧ s.result? i = some r ∧ Q i x r := by
  obtain ⟨x, hx, habides⟩ := h i c hc
  have hno (d : Deed) : ¬ P i x d := hnone x d hx.told
  cases c with
  | done r => exact ⟨x, r, hx.told, result?_of_done hc, habides⟩
  | ask q next => exact absurd habides.1 (hno _)
  | look next => exact absurd habides.1 (hno _)
  | keep change next => exact absurd habides.1 (hno _)
  | enter g next => exact absurd habides.1 (hno _)
  | exit g next => exact absurd habides.1 (hno _)

/-- What a call waits for an answer to it may ask where it stands. -/
theorem Abiding.inFlight (h : Abiding p P Q s) {r : Request} (hr : s.inFlight? i = some r) :
    ∃ x, Fits p s i x ∧ P i x (.ask (.exchange r)) := by
  rw [inFlight?] at hr
  split at hr
  · rename_i r' next hc
    cases hr
    obtain ⟨x, hx, habides⟩ := h i _ hc
    exact ⟨x, hx, habides.1⟩
  · cases hr

/-- All that was asked was asked by a call that might ask it, after what it was told before. -/
theorem Abiding.told (h : Abiding p P Q s) (hs : s.events = []) (ts : List Turn) :
    ∀ {i before e after}, own i (s.run ts).events = before ++ e :: after →
      ∃ x, x.told = before ∧ P i x (.ask e.question) := by
  induction ts using List.reverseRecOn with
  | nil =>
    intro i before e after he
    change own i s.events = _ at he
    rw [hs] at he
    cases before <;> cases he
  | append_singleton ts t ih =>
    intro i before e after he
    rw [run_concat] at he
    rcases (h.run ts).events_step t with heq | ⟨q, x, hx, hP, -, heq⟩
    · rw [heq] at he
      exact ih he
    rw [heq, own_append] at he
    by_cases hi : i = t.call
    · subst hi
      rw [own_self] at he
      rcases List.eq_nil_or_concat after with rfl | ⟨after, last, rfl⟩
      · obtain ⟨hbefore, hlast⟩ := List.append_inj' he rfl
        cases hlast
        exact ⟨x, hx.told.trans hbefore, hP⟩
      · have he' : own t.call (s.run ts).events ++ [⟨q, t.answers q⟩] =
            (before ++ e :: after) ++ [last] := by simpa using he
        exact ih (List.append_inj' he' rfl).1
    · rw [own_other hi, List.append_nil] at he
      exact ih he

theorem Abiding.asked (h : Abiding p P Q s) (hs : s.events = []) {ts : List Turn}
    {e : Nat × Event} (he : e ∈ (s.run ts).events) : ∃ x, P e.1 x (.ask e.2.question) := by
  obtain ⟨before, after, hsplit⟩ := List.append_of_mem (mem_own.mpr he)
  obtain ⟨x, -, hP⟩ := h.told hs ts hsplit
  exact ⟨x, hP⟩

end Interleaving

end IdentityTokens
