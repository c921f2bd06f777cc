import IdentityTokens.Config
import IdentityTokens.Users.Revocation
import IdentityTokens.Verifier

/-! Clients: one project's minting, verifying and checking, put together from a
configuration. What the caller brings along replaces what would follow from it. -/
namespace IdentityTokens

/-- What a caller brings along. -/
structure Collaborators where
  bearer : Bearer := .nobody
  signer : Option Signer := none
  idTokenKeys : Option KeySource := none
  sessionCookieKeys : Option KeySource := none
  users : Option Users := none
deriving DecidableEq, Repr

structure Client where
  project : String
  emulator : Bool
  minter : Minter
  idTokenKeys : KeySource
  sessionCookieKeys : KeySource
  users : Users
  /-- Whether the caller brought the users along: then they are the same for each tenant. -/
  ownUsers : Bool
deriving DecidableEq, Repr

namespace Client

/-- The token that an emulator accepts for everything. -/
def emulatorToken : String := "owner"

def bearerFor (config : Config) (own : Bearer) : Bearer :=
  if config.isEmulator then .fixed emulatorToken else own

/-- The account to sign as, where its key is elsewhere. -/
def signingAccount? (config : Config) : Option String :=
  (Config.filled config.serviceAccountId).orElse fun _ =>
    Config.filled (config.credentials.map (·.clientEmail))

def remoteSigner (config : Config) (bearer : Bearer) : RemoteSigner :=
  ⟨bearer, config.iamHost, config.metadataHost, signingAccount? config⟩

/-- An emulator needs no signature; else a private key that is at hand is used. -/
def defaultSigner (config : Config) (bearer : Bearer) : Except AuthError Signer :=
  if config.isEmulator then .ok .emulated
  else
    match config.credentials.filter (·.hasPrivateKey) with
    | some c => (ServiceAccount.ofCredentials c).map .local
    | none => .ok (.remote (remoteSigner config bearer))

def defaultUsers (config : Config) (bearer : Bearer) (project : String) : Users :=
  .lookup <|
    match Config.filled config.emulatorHost with
    | some host => .ofEmulator bearer host project
    | none => .ofHost bearer config.identityToolkitHost project

def ofConfig (config : Config) (own : Collaborators) : Except AuthError Client := do
  let project := config.resolvedProjectId.getD ""
  let bearer := bearerFor config own.bearer
  let signer ← match own.signer with
    | some s => pure s
    | none => defaultSigner config bearer
  .ok {
    project := project
    emulator := config.isEmulator
    minter := .ofSigner signer
    idTokenKeys := own.idTokenKeys.getD (.published config.idTokenCertUrl)
    sessionCookieKeys := own.sessionCookieKeys.getD (.published config.sessionCookieCertUrl)
    users := own.users.getD (defaultUsers config bearer project)
    ownUsers := own.users.isSome }

def keys (c : Client) : Kind → KeySource
  | .idToken => c.idTokenKeys
  | .sessionCookie => c.sessionCookieKeys

def verifier (c : Client) (kind : Kind) : Verifier := ⟨kind, c.project, c.emulator, c.keys kind⟩

/-- Mints a custom token for a user. -/
def mint (c : Client) (uid : String) (claims : List (String × Json)) : Call String :=
  c.minter.mint uid claims

def verify (c : Client) (kind : Kind) (token : String) : Call IdToken :=
  (c.verifier kind).verify token

/-- Verifies a token and, only if it is verified, asks about its user. -/
def verifyUnrevoked (c : Client) (kind : Kind) (token : String) : Call IdToken := do
  let verified ← c.verify kind token
  c.users.check kind verified
  return verified

end Client

/-- A client whose tokens belong to one tenant. -/
structure TenantClient where
  tenant : String
  client : Client
deriving DecidableEq, Repr

namespace TenantClient

def ofClient (c : Client) (id : String) : Except AuthError TenantClient := do
  let minter ← c.minter.withTenant id
  .ok ⟨id, { c with
    minter := minter
    users := if c.ownUsers then c.users else c.users.forTenant id }⟩

def mint (c : TenantClient) (uid : String) (claims : List (String × Json)) : Call String :=
  c.client.mint uid claims

def mismatch (kind : Kind) (t : IdToken) : AuthError :=
  (AuthError.invalidArgument .tenantIdMismatch
    ("invalid tenant id: " ++ Text.quoted (t.tenantId?.getD ""))).withParent kind.invalidCode

def checkTenant (c : TenantClient) (t : IdToken) : Except AuthError Unit :=
  if t.tenantId? = some c.tenant then .ok () else .error (mismatch .idToken t)

def verify (c : TenantClient) (token : String) : Call IdToken := do
  let verified ← c.client.verify .idToken token
  c.checkTenant verified
  return verified

def verifyUnrevoked (c : TenantClient) (token : String) : Call IdToken := do
  let verified ← c.verify token
  c.client.users.check .idToken verified
  return verified

end TenantClient

end IdentityTokens
