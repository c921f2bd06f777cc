import IdentityTokens.Asn1.Block
import IdentityTokens.Asn1.Fault
import IdentityTokens.Asn1.Reader
import IdentityTokens.Base64
import IdentityTokens.Calendar
import IdentityTokens.Call.Basic
import IdentityTokens.Call.Interleaving
import IdentityTokens.Call.Run
import IdentityTokens.Call.Web
import IdentityTokens.Client
import IdentityTokens.Clock
import IdentityTokens.Config
import IdentityTokens.Credentials
import IdentityTokens.CustomToken
import IdentityTokens.Double.Basic
import IdentityTokens.Double.Shortest
import IdentityTokens.Error
import IdentityTokens.Files
import IdentityTokens.Json.Basic
import IdentityTokens.Json.Fault
import IdentityTokens.Json.Form
import IdentityTokens.Json.Number
import IdentityTokens.Json.Printer
import IdentityTokens.Json.Quotation
import IdentityTokens.Json.Reader
import IdentityTokens.Json.Skip
import IdentityTokens.Jws
import IdentityTokens.Jwt
import IdentityTokens.Keys.Basic
import IdentityTokens.Keys.Document
import IdentityTokens.Keys.MaxAge
import IdentityTokens.Keys.Published
import IdentityTokens.Keys.Source
import IdentityTokens.Keys.Stored
import IdentityTokens.Kind
import IdentityTokens.Minter
import IdentityTokens.Net.Exchange
import IdentityTokens.Net.Host
import IdentityTokens.Net.Percent
import IdentityTokens.Net.Url
import IdentityTokens.Octets
import IdentityTokens.Pem.Armor
import IdentityTokens.Pem.Strict
import IdentityTokens.Rejection
import IdentityTokens.Rsa.PrivateKey
import IdentityTokens.Rsa.PublicKey
import IdentityTokens.Rsa.Signature
import IdentityTokens.Sha256
import IdentityTokens.Signers.Remote
import IdentityTokens.Signers.ServiceAccount
import IdentityTokens.Signers.Signer
import IdentityTokens.Text.Blank
import IdentityTokens.Text.Cut
import IdentityTokens.Text.Decimal
import IdentityTokens.Text.Quoted
import IdentityTokens.Text.Unprintable
import IdentityTokens.Text.Utf8
import IdentityTokens.Token
import IdentityTokens.Users.Lookup
import IdentityTokens.Users.Revocation
import IdentityTokens.Users.State
import IdentityTokens.Verifier
import IdentityTokens.Proofs.Call.Runs
import IdentityTokens.Proofs.Segments
import IdentityTokens.Proofs.Times
import IdentityTokens.Proofs.Verifier.Checks
import IdentityTokens.Proofs.Verifier.Decision
import IdentityTokens.Proofs.Verifier.Refusals
import IdentityTokens.Proofs.Verifier.Acceptance
import IdentityTokens.Proofs.Users.Revocation
import IdentityTokens.Proofs.Call.Sessions
import IdentityTokens.Proofs.Keys.Fetches
import IdentityTokens.Proofs.Keys.Stages
import IdentityTokens.Proofs.Keys.History
import IdentityTokens.Proofs.Keys.Cache
import IdentityTokens.Proofs.Call.Alone
import IdentityTokens.Proofs.Keys.Installs
import IdentityTokens.Proofs.Keys.Hollow
import IdentityTokens.Proofs.Call.Bystanders
import IdentityTokens.Proofs.Keys.Refreshes
import IdentityTokens.Proofs.Call.Cancellation
import IdentityTokens.Proofs.Clients.Cancellation
import IdentityTokens.Proofs.Base64
import IdentityTokens.Proofs.Json.Texts
import IdentityTokens.Proofs.Json.Numbers
import IdentityTokens.Proofs.Json.Values
import IdentityTokens.Proofs.Json.Records
import IdentityTokens.Proofs.Jwt
import IdentityTokens.Proofs.Minter.Contents
import IdentityTokens.Proofs.Double.Rounding
import IdentityTokens.Proofs.Double.Digits
import IdentityTokens.Proofs.Double.Decimals
import IdentityTokens.Proofs.Json.Decimals
import IdentityTokens.Proofs.Json.Doubles
import IdentityTokens.Proofs.Json.Skipping
import IdentityTokens.Proofs.Json.Nesting
import IdentityTokens.Proofs.Call.Endings
import IdentityTokens.Proofs.Minter.Payloads
import IdentityTokens.Proofs.Verifier.CustomTokens
import IdentityTokens.Proofs.Verifier.Modes
import IdentityTokens.Proofs.Verifier.Apart
import IdentityTokens.Proofs.Clients.Errands
import IdentityTokens.Proofs.Clients.Tenants
import IdentityTokens.Proofs.Call.Pacts
import IdentityTokens.Proofs.Call.Tellings
import IdentityTokens.Proofs.Signers.Accounts
import IdentityTokens.Proofs.Signers.Signing
import IdentityTokens.Proofs.Signers.Identity
import IdentityTokens.Proofs.Clients.Operations
import IdentityTokens.Proofs.Clients.Setup
import IdentityTokens.Proofs.Clients.Accounts
import IdentityTokens.Proofs.Clients.Modes
import IdentityTokens.Proofs.Clients.Bearers
import IdentityTokens.Proofs.Verifier.Tellings
import IdentityTokens.Proofs.Clients.Incidents
import IdentityTokens.Proofs.Clients.ErrorFamilies
import IdentityTokens.Proofs.Clients.Projects
import IdentityTokens.Proofs.Text.Decimal
import IdentityTokens.Proofs.Users.Lookups
import IdentityTokens.Proofs.Base64.Canonical
import IdentityTokens.Proofs.Compact
import IdentityTokens.Proofs.Octets
import IdentityTokens.Proofs.Text.Blank
import IdentityTokens.Proofs.Asn1.Writing
import IdentityTokens.Proofs.Pem.Writing
import IdentityTokens.Proofs.Rsa.Signatures
import IdentityTokens.Proofs.Rsa.Forms
import IdentityTokens.Proofs.Rsa.Documents
import IdentityTokens.Proofs.Jws
import IdentityTokens.Proofs.Signers.Local
import IdentityTokens.Proofs.Json.Extents
import IdentityTokens.Proofs.Json.Settling
import IdentityTokens.Proofs.Json.Accord
import IdentityTokens.Proofs.Json.Decoding
import IdentityTokens.Proofs.Platform
import IdentityTokens.Proofs.Users.Answers
import IdentityTokens.Proofs.Verifier.Views
import IdentityTokens.Proofs.Text.Quoted
import IdentityTokens.Proofs.Minter.Refusals
import IdentityTokens.Proofs.Signers.Answers
import IdentityTokens.Proofs.Keys.Documents
import IdentityTokens.Proofs.Keys.Ages
import IdentityTokens.Proofs.Call.Undisturbed
import IdentityTokens.Proofs.Keys.Readings
import IdentityTokens.Proofs.Keys.FirstReading
import IdentityTokens.Proofs.Keys.ReadOnce
import IdentityTokens.Proofs.Net.Requests
import IdentityTokens.Proofs.Net.Percent
import IdentityTokens.Proofs.Net.Paths
import IdentityTokens.Proofs.Net.Addresses
import IdentityTokens.Proofs.Users.Resources
