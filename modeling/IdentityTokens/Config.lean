import IdentityTokens.Credentials
import IdentityTokens.Kind

/-! What a client is set up with: out of a document, or out of the variables of
its environment. -/
namespace IdentityTokens

open Json

/-- A span of time; `nanos` is less than a second. -/
structure Span where
  seconds : Nat
  nanos : Nat
deriving DecidableEq, Repr

namespace Span

def nanosPerSecond : Nat := 1000000000

def carry (s : Span) : Span := ⟨s.seconds + s.nanos / nanosPerSecond, s.nanos % nanosPerSecond⟩

def natural (kind : Reader.IntegerKind) (s : Bytes) : Except Fault (Got Nat) :=
  (Reader.integer kind s).map fun (n, rest) => (n.toNat, rest)

/-- Seconds and nanoseconds; no other member is allowed, and the seconds must
still fit when the nanoseconds are carried over. -/
def form : Form Span where
  title := "struct Duration"
  fields := [
    field "secs" .never (natural Reader.unsigned64) fun v s => { s with seconds := v },
    field "nanos" .never (natural Reader.unsigned32) fun v s => { s with nanos := v }]
  blank := ⟨0, 0⟩
  closed := some "`secs` or `nanos`"
  lengthText := "struct Duration"
  check := fun s => if s.carry.seconds < UInt64.size then none else some .durationOverflow

def read (room : Nat) (s : Bytes) : Except Fault (Got Span) :=
  (form.read room s).map fun (v, rest) => (v.carry, rest)

end Span

structure Config where
  projectId : Option String
  serviceAccountId : Option String
  credentials : Option Credentials
  emulatorHost : Option String
  idTokenCertUrl : String
  sessionCookieCertUrl : String
  iamHost : String
  metadataHost : String
  identityToolkitHost : String
  httpTimeout : Span
deriving DecidableEq, Repr

namespace Config

/-- Nothing set, and the public hosts. -/
def default : Config where
  projectId := none
  serviceAccountId := none
  credentials := none
  emulatorHost := none
  idTokenCertUrl := Kind.certUrl .idToken
  sessionCookieCertUrl := Kind.certUrl .sessionCookie
  iamHost := "https://iam.googleapis.com"
  metadataHost := "http://metadata.google.internal"
  identityToolkitHost := "https://identitytoolkit.googleapis.com"
  httpTimeout := ⟨30, 0⟩

def form : Form Config where
  title := "struct AuthConfig"
  fields := [
    field "project_id" .always (Reader.optional Reader.text) fun v c => { c with projectId := v },
    field "service_account_id" .always (Reader.optional Reader.text) fun v c =>
      { c with serviceAccountId := v },
    deepField "credentials" .always (fun room => Reader.optional (Credentials.form.read room))
      fun v c => { c with credentials := v },
    field "emulator_host" .always (Reader.optional Reader.text) fun v c =>
      { c with emulatorHost := v },
    field "id_token_cert_url" .always Reader.text fun v c => { c with idTokenCertUrl := v },
    field "session_cookie_cert_url" .always Reader.text fun v c =>
      { c with sessionCookieCertUrl := v },
    field "iam_host" .always Reader.text fun v c => { c with iamHost := v },
    field "metadata_host" .always Reader.text fun v c => { c with metadataHost := v },
    field "identity_toolkit_host" .always Reader.text fun v c =>
      { c with identityToolkitHost := v },
    deepField "http_timeout" .always Span.read fun v c => { c with httpTimeout := v }]
  blank := default

def decode (b : Bytes) : Except Json.Error Config := form.decode b

/-- A text that counts only if there is something in it. -/
def filled (s : Option String) : Option String := s.filter (· ≠ "")

/-- The variables that may name the project, the first one first. -/
def projectVariables : List String := ["GOOGLE_CLOUD_PROJECT", "GCLOUD_PROJECT"]

def credentialsVariable : String := "GOOGLE_APPLICATION_CREDENTIALS"

def emulatorVariable : String := "FIREBASE_AUTH_EMULATOR_HOST"

def ofEnvironment (files : Files) (getVar : String → Option String) :
    Except AuthError Config := do
  let credentials ← match filled (getVar credentialsVariable) with
    | none => pure none
    | some name => some <$> Credentials.ofFile files name
  .ok { default with
    projectId := projectVariables.findSome? fun name => filled (getVar name)
    credentials := credentials
    emulatorHost := filled (getVar emulatorVariable) }

def withProjectId (c : Config) (id : String) : Config := { c with projectId := some id }

def withServiceAccountId (c : Config) (id : String) : Config :=
  { c with serviceAccountId := some id }

def withEmulatorHost (c : Config) (host : String) : Config := { c with emulatorHost := some host }

def withCredentials (c : Config) (credentials : Credentials) : Config :=
  { c with credentials := some credentials }

def isEmulator (c : Config) : Bool := (filled c.emulatorHost).isSome

/-- The project that is set, else the one of the credentials. -/
def resolvedProjectId (c : Config) : Option String :=
  (filled c.projectId).orElse fun _ => filled (c.credentials.map (·.projectId))

end Config

end IdentityTokens
