import IdentityTokens.Proofs.Clients.Setup
import IdentityTokens.Proofs.Json.Records

/-! # The project of a configuration

The caller, a key file and two variables may each name the project, and they are meant to count in
this order. A variable takes the very place that is the caller's, though. So it comes before the
key file, and a caller who puts nothing there makes it forgotten. Nothing else is out of turn. -/
namespace IdentityTokens.Config

/-- The credentials that come with an environment: what the named file holds, or none. -/
inductive Brings (files : Files) (getVar : String → Option String) : Option Credentials → Prop where
  | nothing (hname : filled (getVar credentialsVariable) = none) : Brings files getVar none
  | file {name : String} {b : Bytes} {credentials : Credentials}
      (hname : filled (getVar credentialsVariable) = some name) (hfile : files name = .ok b)
      (hread : Credentials.form.decode b = .ok credentials) : Brings files getVar (some credentials)

/-- What is made of an environment by a caller who may name a project. -/
def ofCaller (files : Files) (getVar : String → Option String) (named : Option String) :
    Except AuthError Config :=
  (ofEnvironment files getVar).map fun c => named.elim c c.withProjectId

/-- The project that the variables name, the first one first. -/
def environmentProject (getVar : String → Option String) : Option String :=
  (filled (getVar "GOOGLE_CLOUD_PROJECT")).or (filled (getVar "GCLOUD_PROJECT"))

/-- The project that the key file names. -/
def accountProject (credentials : Option Credentials) : Option String :=
  filled (credentials.map (·.projectId))

/-- The project by the order that is meant. -/
def meantProject (named account environment : Option String) : Option String :=
  (filled named).or (account.or environment)

/-- The project by the order that holds: a variable counts only if the caller puts nothing in its
place, and then it counts first. -/
def heardProject (named account environment : Option String) : Option String :=
  match named with
  | none => environment.or account
  | some _ => (filled named).or account

/-- Where a variable comes before a key file that names another project, or is forgotten. -/
inductive OutOfTurn : (named account environment : Option String) → Prop where
  | before {account environment : String} (hne : account ≠ environment) :
      OutOfTurn none (some account) (some environment)
  | forgotten {environment : String} : OutOfTurn (some "") none (some environment)

/-- Out of turn is just where the two orders come to different projects. -/
theorem heardProject_eq_iff {named account environment : Option String} :
    heardProject named account environment = meantProject named account environment ↔
      ¬ OutOfTurn named account environment := by
  unfold heardProject meantProject
  constructor
  · rintro h (hne | _)
    · exact hne (Option.some.inj h).symm
    · exact nomatch h
  · intro h
    cases named with
    | none =>
      cases account with
      | none => exact Option.or_none
      | some a =>
        cases environment with
        | none => rfl
        | some e =>
          by_cases hne : a = e
          · rw [hne]
            rfl
          · exact absurd (.before hne) h
    | some id =>
      by_cases hid : id = ""
      · subst hid
        cases account with
        | some a => rfl
        | none =>
          cases environment with
          | none => rfl
          | some e => exact absurd .forgotten h
      · rw [filled_eq_some_iff.mpr ⟨rfl, hid⟩]
        rfl

variable {files : Files} {getVar : String → Option String} {credentials : Option Credentials}

theorem filled_filled (s : Option String) : filled (filled s) = filled s := by
  rcases h : filled s with _ | t
  · rfl
  · exact filled_eq_some_iff.mpr ⟨rfl, (filled_eq_some_iff.mp h).2⟩

theorem filled_environmentProject (getVar : String → Option String) :
    filled (environmentProject getVar) = environmentProject getVar := by
  unfold environmentProject
  rcases h : filled (getVar "GOOGLE_CLOUD_PROJECT") with _ | id
  · exact filled_filled _
  · rw [← h, Option.or_of_isSome (by rw [h]; rfl), filled_filled]

theorem findSome?_projectVariables (getVar : String → Option String) :
    (projectVariables.findSome? fun name => filled (getVar name)) = environmentProject getVar := by
  unfold projectVariables environmentProject
  rw [List.findSome?_cons, List.findSome?_cons, List.findSome?_nil]
  cases filled (getVar "GOOGLE_CLOUD_PROJECT") with
  | some _ => rfl
  | none => cases filled (getVar "GCLOUD_PROJECT") <;> rfl

/-- An environment whose key file can be read, if there is one, makes a configuration. -/
theorem Brings.exists_config (h : Brings files getVar credentials) :
    ∃ c, ofEnvironment files getVar = .ok c ∧ c.credentials = credentials ∧
      c.projectId = environmentProject getVar := by
  unfold ofEnvironment
  rw [findSome?_projectVariables]
  cases h with
  | nothing hname =>
    rw [hname]
    exact ⟨_, rfl, rfl, rfl⟩
  | file hname hfile hread =>
    simp only [hname, Credentials.ofFile, hfile, Credentials.ofJson, hread]
    exact ⟨_, rfl, rfl, rfl⟩

theorem resolvedProjectId_eq (c : Config) :
    c.resolvedProjectId = (filled c.projectId).or (accountProject c.credentials) := by
  rw [resolvedProjectId, accountProject]
  cases filled c.projectId <;> rfl

/-- **Which project is resolved.** An environment whose key file can be read makes a configuration,
and its project is the one by the order that holds. This is the order that is meant except where
a variable is heard out of turn. -/
theorem resolves_heardProject (h : Brings files getVar credentials) (named : Option String) :
    ∃ c, ofCaller files getVar named = .ok c ∧ c.credentials = credentials ∧
      c.resolvedProjectId =
        heardProject named (accountProject credentials) (environmentProject getVar) ∧
      (c.resolvedProjectId =
          meantProject named (accountProject credentials) (environmentProject getVar) ↔
        ¬ OutOfTurn named (accountProject credentials) (environmentProject getVar)) := by
  obtain ⟨c, hc, hcredentials, hproject⟩ := h.exists_config
  have hresolved : (named.elim c c.withProjectId).resolvedProjectId =
      heardProject named (accountProject credentials) (environmentProject getVar) := by
    rw [resolvedProjectId_eq]
    cases named with
    | none =>
      change (filled c.projectId).or (accountProject c.credentials) = _
      rw [hcredentials, hproject, filled_environmentProject]
      rfl
    | some id =>
      change (filled (some id)).or (accountProject c.credentials) = _
      rw [hcredentials]
      rfl
  refine ⟨named.elim c c.withProjectId, ?_, ?_, hresolved, ?_⟩
  · rw [ofCaller, hc]
    rfl
  · cases named <;> exact hcredentials
  · rw [hresolved]
    exact heardProject_eq_iff

/-- A key file that names a project, and nothing else. -/
def keyFile : Files := fun name =>
  if name = "key.json" then .ok (Text.bytes (Json.object [("project_id", .text "account")]).compact)
  else .error .missing

/-- The key file is named, and a project of its own. -/
def settings : String → Option String
  | "GOOGLE_APPLICATION_CREDENTIALS" => some "key.json"
  | "GOOGLE_CLOUD_PROJECT" => some "environment"
  | _ => none

theorem brings_keyFile : Brings keyFile settings (some ⟨"", "account", "", "", "", ""⟩) := by
  have hname : filled (settings credentialsVariable) = some "key.json" := by decide
  refine .file hname (if_pos rfl) ?_
  exact Json.Form.Takes.decode_compact
    (.field rfl rfl (Json.reads_field (Json.reads_text "account")) (.done rfl rfl))

theorem resolves_heardProject_account :
    ∃ c, ofCaller keyFile settings (some "") = .ok c ∧ c.resolvedProjectId = some "account" := by
  obtain ⟨c, hc, -, hproject, -⟩ := resolves_heardProject brings_keyFile (some "")
  refine ⟨c, hc, hproject.trans ?_⟩
  decide

/-- Nothing is named but a project, by the second of its variables. -/
def projectSetting : String → Option String
  | "GCLOUD_PROJECT" => some "environment"
  | _ => none

/-- **A variable comes before the key file**, and without a key file it is forgotten where the
caller names nothing. -/
theorem exists_environment_outOfTurn :
    (∃ c, ofCaller keyFile settings none = .ok c ∧ c.resolvedProjectId = some "environment" ∧
      meantProject none (accountProject c.credentials) (environmentProject settings) =
        some "account") ∧
    ∃ c, ofCaller Files.none projectSetting (some "") = .ok c ∧ c.resolvedProjectId = none ∧
      meantProject (some "") (accountProject c.credentials) (environmentProject projectSetting) =
        some "environment" := by
  constructor
  · obtain ⟨c, hc, hcredentials, hproject⟩ := brings_keyFile.exists_config
    refine ⟨c, by rw [ofCaller, hc]; rfl, ?_, ?_⟩
    · rw [resolvedProjectId_eq, hproject, hcredentials]
      decide
    · rw [hcredentials]
      decide
  · have hnothing : Brings Files.none projectSetting none := .nothing (by decide)
    obtain ⟨c, hc, hcredentials, hproject⟩ := hnothing.exists_config
    refine ⟨c.withProjectId "", by rw [ofCaller, hc]; rfl, ?_, ?_⟩
    · rw [resolvedProjectId_eq, withProjectId, hcredentials]
      rfl
    · rw [withProjectId, hcredentials]
      decide

end IdentityTokens.Config
