import Mathlib.Data.List.TakeWhile
import IdentityTokens.Proofs.Clients.Operations

/-! # What a configuration makes of a client

Each part of a client is told from the configuration and from what the caller brought along. Whether
it is for an emulator is decided by the host of the emulator alone, and who signs then is decided by
whether there is anything in the private key. -/
namespace IdentityTokens

namespace Text

theorem trimChars_eq_nil_iff {s : List Char} : trimChars s = [] ↔ ∀ c ∈ s, isBlank c = true := by
  rw [trimChars, List.reverse_eq_nil_iff, List.dropWhile_eq_nil_iff]
  constructor
  · intro h c hc
    rw [← List.takeWhile_append_dropWhile (p := isBlank) (l := s)] at hc
    rcases List.mem_append.mp hc with hc | hc
    · exact List.mem_takeWhile_imp hc
    · exact h c (List.mem_reverse.mpr hc)
  · intro h c hc
    exact h c ((List.dropWhile_sublist _).subset (List.mem_reverse.mp hc))

theorem trim_eq_empty_iff {s : String} : trim s = "" ↔ ∀ c ∈ s.toList, isBlank c = true := by
  rw [← trimChars_eq_nil_iff, trim]
  constructor
  · intro h
    exact String.ofList_injective h
  · intro h
    rw [h]

end Text

/-- There is something in the private key. -/
def Credentials.HoldsKey (c : Credentials) : Prop :=
  ∃ char ∈ c.privateKey.toList, Text.isBlank char = false

theorem Credentials.hasPrivateKey_iff {c : Credentials} : c.hasPrivateKey = true ↔ c.HoldsKey := by
  rw [hasPrivateKey, bne_iff_ne, Ne, Text.trim_eq_empty_iff, HoldsKey]
  simp

namespace Config

variable {config : Config}

theorem filled_eq_some_iff {s : Option String} {t : String} :
    filled s = some t ↔ s = some t ∧ t ≠ "" := by
  rw [filled, Option.filter_eq_some_iff]
  simp

theorem filled_eq_none_iff {s : Option String} :
    filled s = none ↔ ∀ t, s = some t → t = "" := by
  rw [filled, Option.filter_eq_none_iff]
  simp

theorem isEmulator_iff :
    config.isEmulator = true ↔ ∃ host, config.emulatorHost = some host ∧ host ≠ "" := by
  rw [isEmulator, Option.isSome_iff_exists]
  exact exists_congr fun host => filled_eq_some_iff

end Config

/-- Where users are asked about: at the emulator, if there is one. Slashes at the end of a host do
not count. -/
def Config.usersHost (config : Config) : String :=
  match filled config.emulatorHost with
  | some host => "http://" ++ host ++ "/identitytoolkit.googleapis.com"
  | none => String.ofList (config.identityToolkitHost.toList.reverse.dropWhile (· = '/')).reverse

/-- Slashes at the end would not count, but there are none. -/
theorem UserLookup.ofEmulator_eq (bearer : Bearer) (host project : String) :
    ofEmulator bearer host project =
      ⟨bearer, "http://" ++ host ++ "/identitytoolkit.googleapis.com" ++ "/v1/projects/" ++ project,
        none⟩ := by
  have hend : ("http://" ++ host ++ "/identitytoolkit.googleapis.com").toList.reverse.dropWhile
      (· = '/') =
      ("http://" ++ host ++ "/identitytoolkit.googleapis.com").toList.reverse := by
    rw [String.toList_append, List.reverse_append]
    rfl
  rw [ofEmulator, ofHost, hend, List.reverse_reverse, String.ofList_toList]

namespace Client

theorem defaultUsers_eq (config : Config) (bearer : Bearer) (project : String) :
    defaultUsers config bearer project =
      .lookup ⟨bearer, config.usersHost ++ "/v1/projects/" ++ project, none⟩ := by
  unfold defaultUsers Config.usersHost
  cases Config.filled config.emulatorHost with
  | none => rfl
  | some host => exact congrArg Users.lookup (UserLookup.ofEmulator_eq bearer host project)

/-- How the parts of a client come of its configuration and of what the caller brought along. -/
structure MadeOf (config : Config) (own : Collaborators) (c : Client) : Prop where
  project : c.project = config.resolvedProjectId.getD ""
  emulator : c.emulator = config.isEmulator
  ownSigner : ∀ signer, own.signer = some signer → c.minter.signer = signer
  signer : own.signer = none →
    defaultSigner config (bearerFor config own.bearer) = .ok c.minter.signer
  tenant : c.minter.tenant = none
  keys : ∀ kind, c.keys kind = match kind with
    | .idToken => own.idTokenKeys.getD (.published config.idTokenCertUrl)
    | .sessionCookie => own.sessionCookieKeys.getD (.published config.sessionCookieCertUrl)
  users : c.users = own.users.getD (defaultUsers config (bearerFor config own.bearer) c.project)
  ownUsers : c.ownUsers = own.users.isSome

variable {config : Config} {own : Collaborators} {c : Client}

theorem madeOf (h : ofConfig config own = .ok c) : MadeOf config own c := by
  rw [ofConfig] at h
  rcases hsigner : own.signer with _ | signer
  all_goals
    rw [hsigner] at h
    obtain ⟨chosen, hchosen, h⟩ := ok_of_bind h
    cases h
  · exact ⟨rfl, rfl, fun s hs => (by cases hsigner.symm.trans hs), fun _ => hchosen, rfl,
      fun kind => (by cases kind <;> rfl), rfl, rfl⟩
  · cases hchosen
    exact ⟨rfl, rfl, fun s hs => Option.some.inj (hsigner.symm.trans hs),
      fun hs => (by cases hsigner.symm.trans hs), rfl, fun kind => (by cases kind <;> rfl), rfl, rfl⟩

namespace MadeOf

variable (h : MadeOf config own c)

include h

/-- For an emulator nothing is signed. -/
theorem signer_emulated (hemulator : c.emulator = true) (hsigner : own.signer = none) :
    c.minter.signer = .emulated := by
  have hdefault := h.signer hsigner
  rw [defaultSigner, if_pos (h.emulator.symm.trans hemulator)] at hdefault
  exact (Except.ok.inj hdefault).symm

/-- A private key that is at hand is used, -/
theorem signer_local (hemulator : c.emulator = false) (hsigner : own.signer = none)
    {credentials : Credentials} (hcredentials : config.credentials = some credentials)
    (hkey : credentials.HoldsKey) :
    ∃ account, ServiceAccount.ofCredentials credentials = .ok account ∧
      c.minter.signer = .local account := by
  have hdefault := h.signer hsigner
  have hreal : ¬ config.isEmulator = true := by
    rw [← h.emulator, hemulator]
    exact Bool.false_ne_true
  rw [defaultSigner, if_neg hreal, hcredentials, Option.filter_some,
    if_pos (Credentials.hasPrivateKey_iff.mpr hkey)] at hdefault
  dsimp only at hdefault
  rcases haccount : ServiceAccount.ofCredentials credentials with e | account
  all_goals rw [haccount] at hdefault
  · cases hdefault
  · exact ⟨account, rfl, (Except.ok.inj hdefault).symm⟩

/-- and otherwise a service signs. -/
theorem signer_remote (hemulator : c.emulator = false) (hsigner : own.signer = none)
    (hkey : ∀ credentials, config.credentials = some credentials → ¬ credentials.HoldsKey) :
    c.minter.signer = .remote (remoteSigner config own.bearer) := by
  have hdefault := h.signer hsigner
  have hreal : ¬ config.isEmulator = true := by
    rw [← h.emulator, hemulator]
    exact Bool.false_ne_true
  have hnone : config.credentials.filter (·.hasPrivateKey) = none := by
    rw [Option.filter_eq_none_iff]
    intro credentials hcredentials hhas
    exact hkey credentials hcredentials (Credentials.hasPrivateKey_iff.mp hhas)
  rw [defaultSigner, if_neg hreal, hnone, bearerFor, if_neg hreal] at hdefault
  exact (Except.ok.inj hdefault).symm

/-- Unless the caller brought along somebody to ask, users are asked about where the configuration
says, those of a tenant under its name. -/
theorem usersOf_default (husers : own.users = none) (scope : Scope) :
    ∃ tenant, c.usersOf scope = .lookup ⟨bearerFor config own.bearer,
      config.usersHost ++ "/v1/projects/" ++ c.project, tenant⟩ := by
  have hlookup := h.users
  rw [husers, Option.getD_none, defaultUsers_eq] at hlookup
  have hown : ¬ c.ownUsers = true := by
    rw [h.ownUsers, husers]
    exact Bool.false_ne_true
  cases scope with
  | project kind => exact ⟨none, hlookup⟩
  | tenant id =>
    refine ⟨some id, ?_⟩
    rw [usersOf, if_neg hown, hlookup]
    rfl

end MadeOf

end Client

end IdentityTokens
