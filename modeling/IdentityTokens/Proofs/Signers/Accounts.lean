import IdentityTokens.Minter
import IdentityTokens.Proofs.Call.Pacts
import IdentityTokens.Proofs.Users.Revocation
import IdentityTokens.Signers.Remote

/-! # Finding out an account, among others

Calls that sign as the account of the machine find it out behind one gate. Of the memory they
promise each other this: the account is only put there by who is inside, where there was none,
and once an answer named it; so nobody has to bear that it changes, and who is inside not even
that it comes. What a call may do where it stands is all that is needed to see when the account
is asked for, and what follows when no answer names it. -/
namespace IdentityTokens

open Call

/-- Whether the event is a post. -/
def Event.Posts (e : Event) : Prop := ∃ r, e.request? = some r ∧ r.method = .post

/-- From one standing to the other nothing was posted. -/
def Standing.Quiet (x y : Standing) : Prop :=
  ∃ es, y.told = x.told ++ es ∧ ∀ e ∈ es, ¬ e.Posts

namespace Standing

variable {x y z : Standing}

theorem quiet_of_told (h : y.told = x.told) : Quiet x y :=
  ⟨[], by rw [h, List.append_nil], fun _ he => absurd he List.not_mem_nil⟩

theorem quiet_of_nil (hx : x.told = []) (hy : ∀ e ∈ y.told, ¬ e.Posts) : Quiet x y :=
  ⟨y.told, by rw [hx, List.nil_append], hy⟩

theorem Quiet.trans (h : Quiet x y) (h' : Quiet y z) : Quiet x z := by
  obtain ⟨es, hes, hquiet⟩ := h
  obtain ⟨fs, hfs, hquiet'⟩ := h'
  refine ⟨es ++ fs, by rw [hfs, hes, List.append_assoc], fun e he => ?_⟩
  exact (List.mem_append.mp he).elim (hquiet e) (hquiet' e)

end Standing

namespace RemoteSigner

variable (s : RemoteSigner)

/-- The request for the account of the machine. -/
def Asks (r : Request) : Prop := Request.build .get s.accountUrl [flavorHeader] "" = .ok r

/-- The account was asked for and the answer named it. -/
def Names (email : String) (e : Event) : Prop :=
  ∃ request response, s.Asks request ∧ e = ⟨.exchange request, some (.answered response)⟩ ∧
    accountNamed response = .ok email

/-- The account to sign as, as far as it is known. -/
def accountIn (m : Memory) : Option String := s.account.orElse fun _ => m.account

/-- Wherever the account was asked for, the answer named it. -/
def Clean (told : List Event) : Prop :=
  ∀ e ∈ told, ∀ r, e.request? = some r → s.Asks r → ∃ email, s.Names email e

/-- The account in the memory comes once, out of an answer that names it. -/
def accounts : Pact where
  gate := some .account
  bears := fun inside m m' => (inside = true → m'.account = m.account) ∧
    ∀ email, m.account = some email → m'.account = some email
  keeps := fun x m m' => m'.account = m.account ∨
    x.inside = true ∧ s.account = none ∧ m.account = none ∧
      ∃ email, m'.account = some email ∧ ∃ e ∈ x.told, s.Names email e
  refl := fun _ _ => ⟨fun _ => rfl, fun _ => id⟩
  trans := fun h h' => ⟨fun hin => (h'.1 hin).trans (h.1 hin), fun email he => h'.2 _ (h.2 _ he)⟩
  of_inside := fun h => ⟨nofun, h.2⟩
  bears_of_keeps := by
    intro x m m' h
    rcases h with heq | ⟨hin, -, hnone, -⟩
    · exact ⟨fun _ => heq, fun email he => heq.trans he⟩
    · rw [hin, hnone]
      exact ⟨nofun, nofun⟩

/-- What a call may do where it stands that uses the account. -/
structure May (x : Standing) (d : Deed) : Prop where
  /-- The account is asked for only inside, as the first thing and where none is known. -/
  asks : ∀ r, d = .ask (.exchange r) → s.Asks r →
    x.inside = true ∧ x.told = [] ∧ s.accountIn x.memory = none
  /-- Where an answer did not name it, all that remains to do is to leave. -/
  leaves : ¬ s.Clean x.told → d = .exit .account
  /-- Who leaves without an account asked for one, and no answer named it. -/
  exits : d = .exit .account → x.memory.account = none →
    x.told ≠ [] ∧ ∀ e ∈ x.told, ∀ email, ¬ s.Names email e

variable {s} {x y : Standing} {d : Deed} {email : String} {m : Memory}

theorem Names.request? {e : Event} (h : s.Names email e) :
    ∃ r, e.request? = some r ∧ s.Asks r := by
  obtain ⟨r, response, hr, rfl, -⟩ := h
  exact ⟨r, rfl, hr⟩

theorem Asks.method {r : Request} (h : s.Asks r) : r.method = .get := Request.method_of_build h

theorem Names.not_posts {e : Event} (h : s.Names email e) : ¬ e.Posts := by
  rintro ⟨r, hr, hpost⟩
  obtain ⟨r', hr', hasks⟩ := h.request?
  cases hr.symm.trans hr'
  exact Method.noConfusion (hasks.method.symm.trans hpost)

theorem clean_nil : s.Clean [] := fun _ he => absurd he List.not_mem_nil

theorem Clean.append {es fs : List Event} (h : s.Clean es) (h' : s.Clean fs) :
    s.Clean (es ++ fs) := by
  intro e he
  rcases List.mem_append.mp he with he | he
  · exact h e he
  · exact h' e he

theorem clean_names {e : Event} (h : s.Names email e) : s.Clean [e] := by
  intro e' he r _ _
  rw [List.mem_singleton.mp he]
  exact ⟨email, h⟩

theorem clean_other {e : Event} (h : ∀ r, e.request? = some r → ¬ s.Asks r) : s.Clean [e] := by
  intro e' he r hr hasks
  rw [List.mem_singleton.mp he] at hr
  exact absurd hasks (h r hr)

theorem clean_posts {e : Event} (h : e.Posts) : s.Clean [e] := by
  refine clean_other fun r hr hasks => ?_
  obtain ⟨r', hr', hpost⟩ := h
  cases hr.symm.trans hr'
  exact Method.noConfusion (hasks.method.symm.trans hpost)

theorem accountIn_of_bears {inside : Bool} {m' : Memory} (h : s.accounts.bears inside m m')
    (he : s.accountIn m = some email) : s.accountIn m' = some email := by
  unfold accountIn at he ⊢
  rcases hs : s.account with _ | a
  all_goals rw [hs] at he
  · exact h.2 _ he
  · exact he

/-- What sends nothing and does not leave is free to be done where the answers are clean. -/
theorem may_of_clean (hx : s.Clean x.told) (hexit : d ≠ .exit .account)
    (hsends : ∀ r, d ≠ .ask (.exchange r)) : s.May x d where
  asks := fun r hd => absurd hd (hsends r)
  leaves := fun h => absurd hx h
  exits := fun hd => absurd hd hexit

theorem may_ask {r : Request} (hin : x.inside = true) (hx : x.told = [])
    (hnone : s.accountIn x.memory = none) : s.May x (.ask (.exchange r)) where
  asks := fun _ _ _ => ⟨hin, hx, hnone⟩
  leaves := fun h => absurd (hx ▸ clean_nil) h
  exits := nofun

theorem may_post {r : Request} (hx : s.Clean x.told) (hpost : r.method = .post) :
    s.May x (.ask (.exchange r)) where
  asks := by
    rintro _ ⟨⟩ hasks
    exact Method.noConfusion (hasks.method.symm.trans hpost)
  leaves := fun h => absurd hx h
  exits := nofun

/-! ## Asking for the account -/

/-- What asking for the account comes to. -/
structure Discovery (s : RemoteSigner) (x y : Standing) (r : Except AuthError String) : Prop where
  inside : y.inside = true
  memory : y.memory = x.memory
  found : ∀ email, r = .ok email → ∃ e, y.told = [e] ∧ s.Names email e
  failed : ∀ e, r = .error e →
    y.told ≠ [] ∧ ∀ e' ∈ y.told, ¬ e'.Posts ∧ ∀ email, ¬ s.Names email e'

theorem not_names_of_unanswered {r : Request} {outcome : Option Outcome}
    (h : ∀ response, outcome ≠ some (.answered response)) (email : String) :
    ¬ s.Names email ⟨.exchange r, outcome⟩ := by
  rintro ⟨request, response, -, heq, -⟩
  cases heq
  exact h response rfl

theorem not_names_of_error {r : Request} {response : Response} {e : AuthError}
    (h : accountNamed response = .error e) (email : String) :
    ¬ s.Names email ⟨.exchange r, some (.answered response)⟩ := by
  rintro ⟨request, response', -, heq, hnamed⟩
  cases heq
  cases h.symm.trans hnamed

theorem discover_abides (hin : x.inside = true) (hx : x.told = [])
    (hnone : s.accountIn x.memory = none) :
    s.discover.Abides s.accounts s.May (s.Discovery x) x := by
  have hclean : s.Clean x.told := by
    rw [hx]
    exact clean_nil
  -- A failure told by one event that names no account.
  have hfailed (e : Event) (error : AuthError) (hpost : ¬ e.Posts)
      (hno : ∀ email, ¬ s.Names email e) : s.Discovery x (x.tell e) (.error error) := by
    refine ⟨hin, rfl, nofun, fun _ _ => ?_⟩
    rw [Standing.tell_told, hx, List.nil_append]
    refine ⟨List.cons_ne_nil e [], fun e' he => ?_⟩
    rw [List.mem_singleton.mp he]
    exact ⟨hpost, hno⟩
  refine (abides_onResult _ _).mpr (abides_send ?_ ?_)
  · intro fault _
    have hgone (a : Option Unit) (error : AuthError) :
        s.Discovery x (x.tell ⟨.goAhead, a⟩) (.error error) := by
      refine hfailed _ error (fun ⟨_, h, _⟩ => nomatch h) ?_
      rintro email ⟨_, _, -, heq, -⟩
      cases heq
    exact ⟨may_of_clean hclean nofun nofun, hgone _ _, hgone _ _⟩
  · intro request hasks
    have hpost (a : Option Outcome) : ¬ Event.Posts ⟨.exchange request, a⟩ := by
      rintro ⟨r, hr, hpost⟩
      cases hr
      exact Method.noConfusion (Asks.method hasks |>.symm.trans hpost)
    refine ⟨may_ask hin hx hnone, ?_, ?_⟩
    · exact hfailed _ _ (hpost _) (not_names_of_unanswered nofun)
    intro outcome
    cases outcome with
    | answered response =>
      change Call.Abides s.accounts s.May (s.Discovery x) (.done (accountNamed response)) _
      rcases hnamed : accountNamed response with error | email
      · exact hfailed _ _ (hpost _) (not_names_of_error hnamed)
      · refine ⟨hin, rfl, ?_, by rintro _ ⟨⟩⟩
        rintro _ ⟨⟩
        refine ⟨_, ?_, ⟨request, response, hasks, rfl, hnamed⟩⟩
        rw [Standing.tell_told, hx, List.nil_append]
    | refused | timedOut | lost | truncated =>
      exact hfailed _ _ (hpost _) (not_names_of_unanswered nofun)

/-! ## Who is inside -/

theorem remembered_eq (s : RemoteSigner) :
    s.remembered = .look fun m =>
      match m.account with
      | some email => Call.ok email
      | none => s.discover >>= fun email => .keep (Memory.setAccount email) (Call.ok email) := rfl

theorem discovered_eq (s : RemoteSigner) :
    s.discovered = .look fun m =>
      match m.account with
      | some email => Call.ok email
      | none => (Call.behind .account s.remembered).mapError guidance := rfl

/-- What being inside comes to, before leaving. -/
structure Stay (s : RemoteSigner) (x y : Standing) (r : Except AuthError String) : Prop where
  inside : y.inside = true
  quiet : x.Quiet y
  stays : ∀ email, x.memory.account = some email → y.memory.account = some email
  found : ∀ email, r = .ok email → y.memory.account = some email ∧ s.Clean y.told
  failed : ∀ e, r = .error e → y.told ≠ [] ∧ ∀ e ∈ y.told, ∀ email, ¬ s.Names email e

theorem Stay.of_ok (hin : y.inside = true) (hquiet : x.Quiet y) (hclean : s.Clean y.told)
    (hstays : ∀ email, x.memory.account = some email → y.memory.account = some email)
    (hfound : y.memory.account = some email) : s.Stay x y (.ok email) where
  inside := hin
  quiet := hquiet
  stays := hstays
  found := by
    rintro _ ⟨⟩
    exact ⟨hfound, hclean⟩
  failed := by rintro _ ⟨⟩

theorem remembered_abides (hs : s.account = none) (hin : x.inside = true) (hx : x.told = []) :
    s.remembered.Abides s.accounts s.May (s.Stay x) x := by
  have hclean : s.Clean x.told := by
    rw [hx]
    exact clean_nil
  rw [remembered_eq]
  refine ⟨may_of_clean hclean nofun nofun, fun m hm => ?_⟩
  dsimp only
  rw [hin] at hm
  rcases hfound : m.account with _ | email
  -- Nobody else is inside, so the account is still unknown when the answer is there.
  · have hnone : s.accountIn (x.see m).memory = none := by
      rw [accountIn, hs]
      exact hfound
    have hstays : ∀ email, x.memory.account ≠ some email := by
      intro email he
      cases hfound.symm.trans (hm.2 email he)
    refine Abides.bind (discover_abides hin hx hnone) ?_ ?_
    · intro y email hy
      obtain ⟨e, htold, hnames⟩ := hy.found email rfl
      have hclean : s.Clean y.told := by
        rw [htold]
        exact clean_names hnames
      refine ⟨may_of_clean hclean nofun nofun, fun m' hm' => ⟨.inr ?_, ?_⟩⟩
      · rw [hy.inside, hy.memory] at hm'
        refine ⟨hy.inside, hs, (hm'.1 rfl).trans hfound, email, rfl, e, ?_, hnames⟩
        rw [Standing.see_told, htold]
        exact List.mem_singleton_self e
      · refine .of_ok hy.inside (Standing.quiet_of_nil hx ?_) hclean
          (fun email he => absurd he (hstays email)) rfl
        intro e' he
        rw [Standing.see_told, htold] at he
        rw [List.mem_singleton.mp he]
        exact hnames.not_posts
    · intro y e hy
      obtain ⟨hne, hnone⟩ := hy.failed e rfl
      exact ⟨hy.inside, Standing.quiet_of_nil hx fun e he => (hnone e he).1,
        fun email he => absurd he (hstays email), nofun, fun _ _ => ⟨hne, fun e he => (hnone e he).2⟩⟩
  · exact .of_ok hin (Standing.quiet_of_told rfl) hclean (fun email he => hm.2 email he) hfound

/-! ## Whoever asks for the account -/

/-- What asking a signer for its account comes to. -/
structure Finding (s : RemoteSigner) (x y : Standing) (r : Except AuthError String) : Prop where
  outside : y.inside = false
  quiet : x.Quiet y
  stays : ∀ email, s.accountIn x.memory = some email → s.accountIn y.memory = some email
  found : ∀ email, r = .ok email → s.accountIn y.memory = some email ∧ s.Clean y.told

theorem Finding.of_ok (hout : y.inside = false) (hquiet : x.Quiet y) (hclean : s.Clean y.told)
    (hstays : ∀ email, s.accountIn x.memory = some email → s.accountIn y.memory = some email)
    (hfound : s.accountIn y.memory = some email) : s.Finding x y (.ok email) where
  outside := hout
  quiet := hquiet
  stays := hstays
  found := by
    rintro _ ⟨⟩
    exact ⟨hfound, hclean⟩

theorem Finding.of_error {e : AuthError} (hout : y.inside = false) (hquiet : x.Quiet y)
    (hstays : ∀ email, s.accountIn x.memory = some email → s.accountIn y.memory = some email) :
    s.Finding x y (.error e) where
  outside := hout
  quiet := hquiet
  stays := hstays
  found := nofun

theorem discovered_abides (hs : s.account = none) (hout : x.inside = false)
    (hclean : s.Clean x.told) (hx : x.told = [] ∨ (x.memory.account).isSome) :
    s.discovered.Abides s.accounts s.May (s.Finding x) x := by
  have haccountIn (m : Memory) : s.accountIn m = m.account := by
    rw [accountIn, hs]
    rfl
  rw [discovered_eq]
  refine ⟨may_of_clean hclean nofun nofun, fun m hm => ?_⟩
  dsimp only
  rcases hfound : m.account with _ | email
  · have htold : x.told = [] := by
      refine hx.resolve_right fun hsome => ?_
      obtain ⟨email, he⟩ := Option.isSome_iff_exists.mp hsome
      cases hfound.symm.trans (hm.2 email he)
    have hstays (m' : Memory) :
        ∀ email, s.accountIn x.memory = some email → s.accountIn m' = some email := by
      intro email he
      rw [haccountIn] at he
      cases hfound.symm.trans (hm.2 email he)
    refine Abides.mapError (Q := s.Finding x) ?_ ?_
    · refine abides_behind rfl (may_of_clean hclean nofun nofun) hout
        (.of_error hout (Standing.quiet_of_told rfl) (hstays _)) fun m' hm' => ?_
      refine (remembered_abides (x := ((x.see m).see m').enter) hs rfl htold).mono (fun _ _ => id) fun y r hy => ?_
      refine ⟨⟨nofun, fun _ => rfl, fun _ hnone => ?_⟩, hy.inside, ?_⟩
      · cases r with
        | ok email => cases hnone.symm.trans (hy.found email rfl).1
        | error e => exact hy.failed e rfl
      · cases r with
        | ok email =>
          obtain ⟨hy', hclean'⟩ := hy.found email rfl
          exact .of_ok rfl hy.quiet hclean' (hstays _) ((haccountIn _).trans hy')
        | error e => exact .of_error rfl hy.quiet (hstays _)
    · rintro y (e | email) hy
      · exact .of_error hy.outside hy.quiet (hstays _)
      · exact hy
  · exact .of_ok hout (Standing.quiet_of_told rfl) hclean (fun email he => accountIn_of_bears hm he)
      ((haccountIn _).trans hfound)

/-- **A signer's account is known for good once it was found.** -/
theorem email_abides (hout : x.inside = false) (hclean : s.Clean x.told)
    (hx : x.told = [] ∨ (s.accountIn x.memory).isSome) :
    s.email.Abides s.accounts s.May (s.Finding x) x := by
  unfold email
  rcases hs : s.account with _ | email
  · refine discovered_abides hs hout hclean (hx.imp_right fun h => ?_)
    rw [accountIn, hs] at h
    exact h
  · refine .of_ok hout (Standing.quiet_of_told rfl) hclean (fun _ => id) ?_
    rw [accountIn, hs]
    rfl

end RemoteSigner

end IdentityTokens
