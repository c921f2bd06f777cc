import IdentityTokens.Proofs.Clients.Errands
import IdentityTokens.Proofs.Signers.Signing

/-! # One account for all that is signed

Calls of one signer find out its account once, whatever turns they take and whatever they are
answered: one of them asks at a time, and none any more once an answer named it. Where no answer
names it nothing is kept, and who comes next asks again. So all tokens that are minted in a run
are issued by one account, and each of them is signed as that account. -/
namespace IdentityTokens

open Call

namespace RemoteSigner

/-- What a signer is used for, by itself or to mint tokens for some tenant or none. -/
inductive Use where
  | email
  | sign (message : Bytes)
  | mint (tenant : Option String) (uid : String) (claims : List (String × Json))

inductive Product where
  | email (email : String)
  | signature (signature : Bytes)
  | token (token : String)

variable (s : RemoteSigner)

def perform : Use → Call Product
  | .email => Product.email <$> s.email
  | .sign message => Product.signature <$> s.sign message
  | .mint tenant uid claims => Product.token <$> Minter.mint ⟨.remote s, tenant⟩ uid claims

/-- What came of a use is of an account, by what its call was told. -/
def IsOf (told : List Event) (account : String) : Use → Product → Prop
  | .email, .email email => email = account
  | .sign message, .signature signature => s.Signed told account message signature
  | .mint _ _ _, .token token => s.Minted told account token
  | _, _ => False

/-- What a use comes to. -/
structure Ending (u : Use) (y : Standing) (r : Except AuthError Product) : Prop where
  outside : y.inside = false
  product : ∀ product, r = .ok product → s.Clean y.told ∧
    ∃ account, s.accountIn y.memory = some account ∧ s.IsOf y.told account u product

variable {s}

theorem perform_abides (u : Use) (m : Memory) :
    (s.perform u).Abides s.accounts s.May (s.Ending u) (.start m) := by
  cases u with
  | email =>
    refine abides_map ((email_abides rfl clean_nil (.inl rfl)).mono (fun _ _ => id) fun y r hy => ?_)
    refine ⟨hy.outside, fun product hproduct => ?_⟩
    cases r with
    | error e => cases hproduct
    | ok email =>
      cases hproduct
      obtain ⟨hfound, hclean⟩ := hy.found email rfl
      exact ⟨hclean, email, hfound, rfl⟩
  | sign message =>
    refine abides_map
      ((sign_abides rfl clean_nil (.inl rfl) message).mono (fun _ _ => id) fun y r hy => ?_)
    refine ⟨hy.outside, fun product hproduct => ?_⟩
    cases r with
    | error e => cases hproduct
    | ok signature =>
      cases hproduct
      obtain ⟨hclean, account, es, hfound, htold, hsigned⟩ := hy.signed signature rfl
      obtain rfl : y.told = es := htold.trans (List.nil_append es)
      exact ⟨hclean, account, hfound, hsigned⟩
  | mint tenant uid claims =>
    refine abides_map
      ((mint_abides rfl clean_nil (.inl rfl) tenant uid claims).mono (fun _ _ => id) fun y r hy => ?_)
    refine ⟨hy.outside, fun product hproduct => ?_⟩
    cases r with
    | error e => cases hproduct
    | ok token =>
      cases hproduct
      obtain ⟨hclean, account, es, hfound, htold, hminted⟩ := hy.minted token rfl
      obtain rfl : y.told = es := htold.trans (List.nil_append es)
      exact ⟨hclean, account, hfound, hminted⟩

/-! ## Uses at one time -/

variable (s) in
/-- A run of uses of the signer. -/
def course (memory : Memory) (uses : List Use) (ts : List Turn) : Interleaving Product :=
  (Interleaving.start memory (uses.map s.perform)).run ts

section Runs

variable {memory : Memory} {uses : List Use} {ts : List Turn} {t : Turn} {i j : Nat}
  {e : Event} {r : Request} {x : Standing} {account : String}

theorem course_concat :
    s.course memory uses (ts ++ [t]) = (s.course memory uses ts).step t :=
  Interleaving.run_concat _ ts t

theorem course_abiding (s : RemoteSigner) (memory : Memory) (uses : List Use) (ts : List Turn) :
    (s.course memory uses ts).Abiding s.accounts (fun _ => s.May)
      fun i y r => ∀ u, uses[i]? = some u → s.Ending u y r := by
  refine Interleaving.Abiding.run (Interleaving.abiding_start fun i c hc => ?_) ts
  rw [List.getElem?_map] at hc
  obtain ⟨u, hu, rfl⟩ := Option.map_eq_some_iff.mp hc
  refine (perform_abides u memory).mono (fun _ _ => id) fun y r hy u' hu' => ?_
  obtain rfl := Option.some.inj (hu.symm.trans hu')
  exact hy

theorem account_step (h : (s.course memory uses ts).memory.account = some account) :
    ((s.course memory uses ts).step t).memory.account = some account := by
  rcases (course_abiding s memory uses ts).memory_step t with heq | ⟨x, -, -, heq | ⟨-, -, hnone, -⟩⟩
  · rw [heq]
    exact h
  · exact heq.trans h
  · cases hnone.symm.trans h

/-- Who is inside where an account is looked for knows what is remembered. -/
theorem account_of_inside (hx : Interleaving.Fits s.accounts (s.course memory uses ts) i x)
    (hin : x.inside = true) : (s.course memory uses ts).memory.account = x.memory.account :=
  hx.memory.1 hin

theorem inside_of_fits (hx : Interleaving.Fits s.accounts (s.course memory uses ts) i x)
    (hin : x.inside = true) : (s.course memory uses ts).inside .account = some i := by
  obtain ⟨g, ⟨⟩, h⟩ := hx.inside.mp hin
  exact h

/-- Who is the only one inside, and told nothing so far, where the account is asked for. -/
structure Asking (s : RemoteSigner) (S : Interleaving Product) (i : Nat) : Prop where
  inside : S.inside .account = some i
  told : own i S.events = []
  configured : s.account = none
  unknown : S.memory.account = none

theorem asking_of_may (hx : Interleaving.Fits s.accounts (s.course memory uses ts) i x)
    (hmay : s.May x (.ask (.exchange r))) (hr : s.Asks r) :
    Asking s (s.course memory uses ts) i := by
  obtain ⟨hin, htold, hnone⟩ := hmay.asks r rfl hr
  obtain ⟨hconfigured, hunknown⟩ : s.account = none ∧ x.memory.account = none := by
    rw [accountIn] at hnone
    cases hs : s.account with
    | none => exact ⟨rfl, by rwa [hs] at hnone⟩
    | some a =>
      rw [hs] at hnone
      cases hnone
  exact ⟨inside_of_fits hx hin, hx.told.symm.trans htold, hconfigured,
    (account_of_inside hx hin).trans hunknown⟩

theorem asking_of_inFlight (h : (s.course memory uses ts).inFlight? i = some r) (hr : s.Asks r) :
    Asking s (s.course memory uses ts) i := by
  obtain ⟨x, hx, hmay⟩ := (course_abiding s memory uses ts).inFlight h
  exact asking_of_may hx hmay hr

/-- Who is inside stays there, or leaves as it may. -/
theorem leaves_step (hin : (s.course memory uses ts).inside .account = some t.call) :
    ((s.course memory uses ts).step t).inside .account = some t.call ∨
      ∃ x, Interleaving.Fits s.accounts (s.course memory uses ts) t.call x ∧
        s.May x (.exit .account) ∧
        ((s.course memory uses ts).step t).events = (s.course memory uses ts).events := by
  by_cases hexit : ∃ next, (s.course memory uses ts).calls[t.call]? = some (.exit .account next)
  · obtain ⟨next, hc⟩ := hexit
    obtain ⟨x, hx, habides⟩ := course_abiding s memory uses ts t.call _ hc
    exact .inr ⟨x, hx, habides.1, by rw [Interleaving.step_exit hc]; rfl⟩
  · exact .inl (Interleaving.inside_step_self hin fun next hc => hexit ⟨next, hc⟩)

/-! ## Once an answer named the account -/

theorem known_of_names (hx : Interleaving.Fits s.accounts (s.course memory uses ts) i x)
    (hmay : s.May x (.exit .account)) (he : e ∈ own i (s.course memory uses ts).events)
    (hnames : s.Names account e) : (s.course memory uses ts).memory.account ≠ none := by
  rcases hknown : x.memory.account with _ | a
  · rw [← hx.told] at he
    exact absurd hnames ((hmay.exits rfl hknown).2 e he account)
  · rw [hx.memory.2 a hknown]
    exact nofun

theorem known_step (h : (s.course memory uses ts).memory.account ≠ none) :
    ((s.course memory uses ts).step t).memory.account ≠ none := by
  obtain ⟨a, ha⟩ := Option.ne_none_iff_exists'.mp h
  rw [account_step ha]
  exact nofun

/-- Once the account was named it is remembered, or who was told it is still inside. -/
theorem settled_course (ts : List Turn) :
    ∀ i e account, e ∈ own i (s.course memory uses ts).events → s.Names account e →
      (s.course memory uses ts).memory.account ≠ none ∨
        (s.course memory uses ts).inside .account = some i := by
  induction ts using List.reverseRecOn with
  | nil =>
    intro i e account he
    cases he
  | append_singleton ts t ih =>
    intro i e account he hnames
    rw [course_concat] at he ⊢
    have habiding := course_abiding s memory uses ts
    by_cases hi : i = t.call
    · subst hi
      by_cases hold : e ∈ own t.call (s.course memory uses ts).events
      · rcases ih _ e account hold hnames with hknown | hin
        · exact .inl (known_step hknown)
        rcases leaves_step hin with hstays | ⟨x, hx, hmay, -⟩
        · exact .inr hstays
        · exact .inl (known_step (known_of_names hx hmay hold hnames))
      · obtain ⟨q, x, hx, hmay, -, heq⟩ : ∃ q x, Interleaving.Fits _ _ t.call x ∧ _ :=
          (habiding.events_step t).resolve_left fun heq => hold (heq ▸ he)
        rw [heq, own_append, own_self] at he
        obtain rfl := List.mem_singleton.mp ((List.mem_append.mp he).resolve_left hold)
        obtain ⟨r, hr, hasks⟩ := hnames.request?
        cases q <;> cases hr
        have hasking := asking_of_may hx hmay hasks
        refine .inr ((leaves_step hasking.inside).resolve_right ?_)
        rintro ⟨-, -, -, hsame⟩
        rw [hsame] at heq
        exact List.cons_ne_nil _ _ (List.append_right_eq_self.mp heq.symm)
    · rw [Interleaving.own_step_other hi] at he
      refine (ih i e account he hnames).imp known_step fun hin => ?_
      exact (habiding.inside_step_other hi rfl).mpr hin

/-- Where the account is asked for no answer named it before. -/
theorem Asking.not_names (h : Asking s (s.course memory uses ts) i)
    (he : e ∈ own j (s.course memory uses ts).events) : ¬ s.Names account e := by
  intro hnames
  rcases settled_course ts j e account he hnames with hknown | hin
  · exact hknown h.unknown
  · obtain rfl : i = j := Option.some.inj (h.inside.symm.trans hin)
    rw [h.told] at he
    cases he

theorem once_course (ts : List Turn) :
    (s.course memory uses ts).events.Pairwise fun e e' =>
      ∀ account, s.Names account e.2 → ∀ r, e'.2.request? = some r → ¬ s.Asks r := by
  induction ts using List.reverseRecOn with
  | nil => exact .nil
  | append_singleton ts t ih =>
    rw [course_concat]
    rcases (course_abiding s memory uses ts).events_step t with heq | ⟨q, x, hx, hmay, -, heq⟩
    · rw [heq]
      exact ih
    rw [heq]
    refine List.pairwise_append.mpr ⟨ih, List.pairwise_singleton _ _, ?_⟩
    intro e he e' he' account hnames r hr hasks
    rw [List.mem_singleton.mp he'] at hr
    cases q <;> cases hr
    exact (asking_of_may hx hmay hasks).not_names (mem_own.mpr he) hnames

/-! ## Where no answer named the account -/

/-- Where an answer did not name the account, its call leaves with its next turn and keeps
nothing, or it did so before and failed. -/
theorem ceases_course {u : Use} (hu : uses[i]? = some u)
    (he : e ∈ own i (s.course memory uses ts).events) (hr : e.request? = some r) (hasks : s.Asks r)
    (hno : ∀ account, ¬ s.Names account e) :
    ((s.course memory uses ts).inside .account = some i ∧ ∀ t, t.call = i →
      ((s.course memory uses ts).step t).inside .account = none ∧
      ((s.course memory uses ts).step t).memory = (s.course memory uses ts).memory) ∨
    ∃ error, (s.course memory uses ts).result? i = some (.error error) := by
  have hu' : (uses.map s.perform)[i]? = some (s.perform u) := by
    rw [List.getElem?_map, hu]
    rfl
  obtain ⟨c, hc⟩ : ∃ c, (s.course memory uses ts).calls[i]? = some c :=
    Interleaving.exists_call hu' ts
  obtain ⟨x, hx, habides⟩ := course_abiding s memory uses ts i c hc
  have hdirty : ¬ s.Clean x.told := by
    intro hclean
    rw [hx.told] at hclean
    obtain ⟨account, hnames⟩ := hclean e he r hr hasks
    exact hno account hnames
  cases c with
  | done result =>
    refine .inr ?_
    cases result with
    | error error => exact ⟨error, Interleaving.result?_of_done hc⟩
    | ok product => exact absurd ((habides u hu).product product rfl).1 hdirty
  | exit g next =>
    obtain rfl : g = .account := by
      cases habides.1.leaves hdirty
      rfl
    obtain ⟨-, hin⟩ := habides
    rw [if_pos (show s.accounts.gate = some .account from rfl)] at hin
    refine .inl ⟨inside_of_fits hx hin.1, ?_⟩
    rintro t rfl
    rw [Interleaving.step_exit hc]
    exact ⟨by simp [Interleaving.withInside], rfl⟩
  | ask q next => cases habides.1.leaves hdirty
  | look next => cases habides.1.leaves hdirty
  | keep change next => cases habides.1.leaves hdirty
  | enter g next => cases habides.1.leaves hdirty

/-- What waits at the gate to find out the account. -/
def waiting (s : RemoteSigner) : Call String := (Call.behind .account s.remembered).mapError guidance

/-- How far a use got that asked for nothing so far. -/
inductive Beginning (s : RemoteSigner) (k : Except AuthError String → Call Product) (i : Nat)
    (S : Interleaving Product) : Prop
  | fresh (hc : S.calls[i]? = some (s.discovered.onResult k))
  | waits (hc : S.calls[i]? = some (s.waiting.onResult k))
  | entered (hin : S.inside .account = some i)
  | asked (hown : own i S.events ≠ [])
  | known (hknown : S.memory.account ≠ none)

theorem perform_eq (hs : s.account = none) (u : Use) :
    ∃ k, s.perform u = s.discovered.onResult k := by
  have hemail : s.email = s.discovered := by
    rw [email, hs]
  have hbind {β : Type} (f : String → Call β) (g : β → Product) :
      ∃ k, g <$> (s.email >>= f) = s.discovered.onResult k := by
    rw [← hemail]
    exact ⟨_, onResult_onResult s.email _ _⟩
  cases u with
  | email => exact ⟨_, congrArg (Call.onResult _) hemail⟩
  | sign message => exact hbind _ _
  | mint tenant uid claims => exact hbind _ _

theorem Beginning.step {k : Except AuthError String → Call Product}
    (h : Beginning s k i (s.course memory uses ts)) :
    Beginning s k i ((s.course memory uses ts).step t) := by
  by_cases hi : i = t.call
  · subst hi
    cases h with
    | fresh hc =>
      rcases hfound : (s.course memory uses ts).memory.account with _ | a
      · refine .waits ?_
        rw [discovered_eq] at hc
        rw [Interleaving.step_look hc]
        refine (Interleaving.withRest_self hc).trans ?_
        dsimp only
        rw [hfound]
        rfl
      · exact .known (known_step (by rw [hfound]; exact nofun))
    | waits hc =>
      by_cases hfree : (s.course memory uses ts).inside .account = none
      · refine .entered ?_
        rw [Interleaving.step_enter hc]
        simp [Gate.isInterruptible, hfree, Interleaving.withInside]
      · refine .waits ?_
        rw [Interleaving.step_enter hc]
        simp only [Gate.isInterruptible, Bool.and_false, Bool.false_eq_true, if_false, hfree]
        exact hc
    | entered hin =>
      rcases leaves_step hin with hstays | ⟨x, hx, hmay, hsame⟩
      · exact .entered hstays
      rcases hknown : x.memory.account with _ | a
      · refine .asked ?_
        rw [hsame, ← hx.told]
        exact (hmay.exits rfl hknown).1
      · exact .known (known_step (by rw [hx.memory.2 a hknown]; exact nofun))
    | asked hown => exact .asked fun hnil => hown (List.prefix_nil.mp (hnil ▸
        own_prefix _ (Interleaving.events_step _ t)))
    | known hknown => exact .known (known_step hknown)
  · cases h with
    | fresh hc => exact .fresh ((Interleaving.calls_step_other hi).trans hc)
    | waits hc => exact .waits ((Interleaving.calls_step_other hi).trans hc)
    | entered hin =>
      exact .entered (((course_abiding s memory uses ts).inside_step_other hi rfl).mpr hin)
    | asked hown => exact .asked (by rwa [Interleaving.own_step_other hi])
    | known hknown => exact .known (known_step hknown)

theorem exists_beginning (hs : s.account = none) {u : Use} (hu : uses[i]? = some u) :
    ∃ k, Beginning s k i (s.course memory uses ts) := by
  obtain ⟨k, hk⟩ := perform_eq hs u
  refine ⟨k, ?_⟩
  induction ts using List.reverseRecOn with
  | nil =>
    refine .fresh ?_
    change (uses.map s.perform)[i]? = _
    rw [List.getElem?_map, hu, ← hk]
    rfl
  | append_singleton ts t ih =>
    rw [course_concat]
    exact ih.step

theorem discover_eq (hr : s.Asks r) : ∃ next, s.discover = .ask (.exchange r) next := by
  rw [discover, Web.get, show Request.build _ _ _ _ = .ok r from hr]
  exact ⟨_, rfl⟩

/-- Behind the gate. -/
theorem waiting_onResult (k : Except AuthError String → Call Product) :
    s.waiting.onResult k = .enter .account fun
      | true => s.remembered.onResult fun r => .exit .account (k (r.mapError guidance))
      | false => k (.error (guidance .cancelled)) := by
  refine congrArg (Call.enter _) (funext fun entered => ?_)
  cases entered with
  | false => rfl
  | true =>
    exact (congrArg (Call.onResult k) (onResult_onResult ..)).trans (onResult_onResult ..)

/-- Who waits for the account asks for it once the gate is open. -/
theorem asks_of_waits {S : Interleaving Product} {k : Except AuthError String → Call Product}
    (hc : S.calls[i]? = some (s.waiting.onResult k)) (hfree : S.inside .account = none)
    (hnone : S.memory.account = none) (hr : s.Asks r) {t₁ t₂ : Turn} (h₁ : t₁.call = i)
    (h₂ : t₂.call = i) : (S.run [t₁, t₂]).inFlight? i = some r := by
  subst h₁
  rw [waiting_onResult] at hc
  have hentered : S.step t₁ = (S.withRest t₁.call (s.remembered.onResult fun r =>
      .exit .account (k (r.mapError guidance)))).withInside .account (some t₁.call) := by
    rw [Interleaving.step_enter hc]
    simp [Gate.isInterruptible, hfree]
  have hc₁ : (S.step t₁).calls[t₂.call]? = some (s.remembered.onResult fun r =>
      .exit .account (k (r.mapError guidance))) := by
    rw [hentered, h₂]
    exact Interleaving.withRest_self hc
  rw [remembered_eq] at hc₁
  have hmemory : (S.step t₁).memory.account = none := by
    rw [hentered]
    exact hnone
  obtain ⟨next, hnext⟩ := discover_eq hr
  have hc₂ := Interleaving.step_look hc₁
  dsimp only at hc₂
  rw [hmemory, hnext] at hc₂
  change ((S.step t₁).step t₂).inFlight? t₁.call = some r
  rw [Interleaving.inFlight?, hc₂, ← h₂, Interleaving.withRest_self hc₁]
  rfl

/-- **Where no account is known and the gate is open, who was told nothing so far asks for the
account next.** -/
theorem tries_course {u : Use} (hu : uses[i]? = some u) (hs : s.account = none)
    (hnone : (s.course memory uses ts).memory.account = none)
    (hfree : (s.course memory uses ts).inside .account = none)
    (hown : own i (s.course memory uses ts).events = []) (hr : s.Asks r) {t₁ t₂ t₃ : Turn}
    (h₁ : t₁.call = i) (h₂ : t₂.call = i) (h₃ : t₃.call = i) :
    ((s.course memory uses ts).run [t₁, t₂]).inFlight? i = some r ∨
      ((s.course memory uses ts).run [t₁, t₂, t₃]).inFlight? i = some r := by
  obtain ⟨k, hk⟩ : ∃ k, Beginning s k i (s.course memory uses ts) := exists_beginning hs hu
  cases hk with
  | fresh hc =>
    subst h₁
    rw [discovered_eq] at hc
    have hstep := Interleaving.step_look hc
    dsimp only at hstep
    rw [hnone] at hstep
    refine .inr ?_
    change ((((s.course memory uses ts).step t₁)).run [t₂, t₃]).inFlight? t₁.call = some r
    rw [hstep]
    exact asks_of_waits (Interleaving.withRest_self hc) hfree hnone hr h₂ h₃
  | waits hc => exact .inl (asks_of_waits hc hfree hnone hr h₁ h₂)
  | entered hin => cases hfree.symm.trans hin
  | asked h => exact absurd hown h
  | known h => exact absurd hnone h

end Runs

/-! ## One account -/

/-- What becomes of the account of a signer in all runs of some uses of it, from what is remembered
at the start, whatever turns they take and whatever they are answered. -/
structure IdentityFixed (s : RemoteSigner) (memory : Memory) (uses : List Use) : Prop where
  /-- What is remembered never changes. -/
  fixed : ∀ ts t account, (s.course memory uses ts).memory.account = some account →
    (s.course memory uses (ts ++ [t])).memory.account = some account
  /-- Only who was told by an answer keeps an account, and none is set for the signer then. -/
  found : ∀ ts t account, (s.course memory uses ts).memory.account = none →
    (s.course memory uses (ts ++ [t])).memory.account = some account →
    s.account = none ∧ ∃ e ∈ own t.call (s.course memory uses ts).events, s.Names account e
  configured : s.account ≠ none → ∀ ts, ∀ e ∈ (s.course memory uses ts).events,
    ∀ r, e.2.request? = some r → ¬ s.Asks r
  alone : ∀ ts i j r r', (s.course memory uses ts).inFlight? i = some r → s.Asks r →
    (s.course memory uses ts).inFlight? j = some r' → s.Asks r' → i = j
  /-- The account is not asked for any more once an answer named it. -/
  once : ∀ ts, (s.course memory uses ts).events.Pairwise fun e e' =>
    ∀ account, s.Names account e.2 → ∀ r, e'.2.request? = some r → ¬ s.Asks r
  /-- Who asked and was not told the account keeps nothing and lets the next one in, and fails. -/
  ceases : ∀ ts i u e r, uses[i]? = some u → e ∈ own i (s.course memory uses ts).events →
    e.request? = some r → s.Asks r → (∀ account, ¬ s.Names account e) →
    ((s.course memory uses ts).inside .account = some i ∧ ∀ t, t.call = i →
      (s.course memory uses (ts ++ [t])).inside .account = none ∧
      (s.course memory uses (ts ++ [t])).memory = (s.course memory uses ts).memory) ∨
    ∃ error, (s.course memory uses ts).result? i = some (.error error)
  /-- As long as no account is known, the next one asks for it within three turns. -/
  tries : ∀ ts i u r, uses[i]? = some u → s.account = none →
    (s.course memory uses ts).memory.account = none →
    (s.course memory uses ts).inside .account = none →
    own i (s.course memory uses ts).events = [] → s.Asks r →
    ∀ t₁ t₂ t₃ : Turn, t₁.call = i → t₂.call = i → t₃.call = i →
      (s.course memory uses (ts ++ [t₁, t₂])).inFlight? i = some r ∨
        (s.course memory uses (ts ++ [t₁, t₂, t₃])).inFlight? i = some r
  /-- All that comes of the signer is of the one account that is known in the end. -/
  same : ∀ ts, ∃ account, ∀ i u product, uses[i]? = some u →
    (s.course memory uses ts).result? i = some (.ok product) →
    s.accountIn (s.course memory uses ts).memory = some account ∧
      s.IsOf (own i (s.course memory uses ts).events) account u product
  /-- Clients that sign with the signer mint as its uses do, and so do those of their tenants. -/
  shared : ∀ c : Client, c.minter.signer = .remote s → ∀ uid claims,
    Product.token <$> c.mint uid claims = s.perform (.mint c.minter.tenant uid claims) ∧
    ∀ id T, TenantClient.ofClient c id = .ok T →
      Product.token <$> T.mint uid claims = s.perform (.mint (some id) uid claims)

theorem course_append (memory : Memory) (uses : List Use) (ts us : List Turn) :
    s.course memory uses (ts ++ us) = (s.course memory uses ts).run us :=
  Interleaving.run_append _ ts us

/-- **A signer's account is fixed once**, and all that is signed in a run is signed as it. -/
theorem identity_fixed (s : RemoteSigner) (memory : Memory) (uses : List Use) :
    IdentityFixed s memory uses where
  fixed := by
    intro ts t account h
    rw [course_concat]
    exact account_step h
  found := by
    intro ts t account hnone hsome
    rw [course_concat] at hsome
    rcases (course_abiding s memory uses ts).memory_step t with heq | ⟨x, hx, -, heq | h⟩
    · rw [heq, hnone] at hsome
      cases hsome
    · rw [heq, hnone] at hsome
      cases hsome
    · obtain ⟨-, hs, -, account', haccount', e, he, hnames⟩ := h
      cases haccount'.symm.trans hsome
      refine ⟨hs, e, ?_, hnames⟩
      rw [← hx.told]
      exact he
  configured := by
    intro hs ts e he r hr hasks
    obtain ⟨x, hmay⟩ := (course_abiding s memory uses []).asked rfl he
    obtain ⟨i, q, a⟩ := e
    cases q <;> cases hr
    have hnone := (hmay.asks r rfl hasks).2.2
    rw [accountIn] at hnone
    obtain ⟨account, haccount⟩ := Option.ne_none_iff_exists'.mp hs
    rw [haccount] at hnone
    cases hnone
  alone := by
    intro ts i j r r' hi hr hj hr'
    have h := asking_of_inFlight hi hr
    have h' := asking_of_inFlight hj hr'
    exact Option.some.inj (h.inside.symm.trans h'.inside)
  once := once_course
  ceases := by
    intro ts i u e r hu he hr hasks hno
    simp only [course_concat]
    exact ceases_course hu he hr hasks hno
  tries := by
    intro ts i u r hu hs hnone hfree hown hr t₁ t₂ t₃ h₁ h₂ h₃
    rw [course_append, course_append]
    exact tries_course hu hs hnone hfree hown hr h₁ h₂ h₃
  same := by
    intro ts
    refine ⟨(s.accountIn (s.course memory uses ts).memory).getD "", fun i u product hu hr => ?_⟩
    obtain ⟨x, hx, hending⟩ := (course_abiding s memory uses ts).result hr
    obtain ⟨-, account, hfound, hof⟩ := (hending u hu).product product rfl
    have haccount := accountIn_of_bears hx.memory hfound
    rw [hx.told] at hof
    rw [haccount]
    exact ⟨rfl, hof⟩
  shared := by
    intro c hc uid claims
    have hminter : c.minter = ⟨.remote s, c.minter.tenant⟩ := by
      rw [← hc]
    refine ⟨?_, fun id T hT => ?_⟩
    · rw [Client.mint, hminter]
      rfl
    · obtain rfl := TenantClient.of_ofClient hT
      dsimp only [TenantClient.mint, Client.mint]
      rw [hc]
      rfl

end RemoteSigner

end IdentityTokens
