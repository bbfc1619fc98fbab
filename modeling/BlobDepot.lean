import BlobDepot.Catalog.Database
import BlobDepot.Catalog.Interface
import BlobDepot.Catalog.Store
import BlobDepot.Catalog.Relational
import BlobDepot.Cli.Command
import BlobDepot.Cli.Run
import BlobDepot.Config.Address
import BlobDepot.Config.Basic
import BlobDepot.Config.Encoding
import BlobDepot.Depot
import BlobDepot.Digest
import BlobDepot.Directory.Filter
import BlobDepot.Directory.Login
import BlobDepot.Encoding.Decode
import BlobDepot.Encoding.Json
import BlobDepot.Encoding.Records
import BlobDepot.Encoding.Toml.Reader
import BlobDepot.Encoding.Toml.Scalar
import BlobDepot.Encoding.Toml.Writer
import BlobDepot.Encoding.Value
import BlobDepot.Files.Interface
import BlobDepot.Files.Tree
import BlobDepot.Host
import BlobDepot.Http.Failure
import BlobDepot.Http.Management
import BlobDepot.Http.Message
import BlobDepot.Http.Transfer
import BlobDepot.Http.Server
import BlobDepot.Ledger
import BlobDepot.Main
import BlobDepot.Record
import BlobDepot.Password.Argon2
import BlobDepot.Password.Hasher
import BlobDepot.Prog
import BlobDepot.Proofs.Addresses
import BlobDepot.Proofs.Agreement
import BlobDepot.Proofs.Announcements
import BlobDepot.Proofs.Base64
import BlobDepot.Proofs.Bookkeeping
import BlobDepot.Proofs.Changes
import BlobDepot.Proofs.Characters
import BlobDepot.Proofs.Claims
import BlobDepot.Proofs.Concurrent
import BlobDepot.Proofs.Configurations
import BlobDepot.Proofs.Custody
import BlobDepot.Proofs.Decoding
import BlobDepot.Proofs.Deposits
import BlobDepot.Proofs.Detachments
import BlobDepot.Proofs.Disciplines
import BlobDepot.Proofs.Election
import BlobDepot.Proofs.Escapes
import BlobDepot.Proofs.Filters
import BlobDepot.Proofs.Grammar
import BlobDepot.Proofs.Grounds
import BlobDepot.Proofs.Handlers
import BlobDepot.Proofs.Headers
import BlobDepot.Proofs.Identifiers
import BlobDepot.Proofs.Independence
import BlobDepot.Proofs.Intake
import BlobDepot.Proofs.Interchange
import BlobDepot.Proofs.JsonRecords
import BlobDepot.Proofs.JsonTexts
import BlobDepot.Proofs.Lifecycle
import BlobDepot.Proofs.Links
import BlobDepot.Proofs.Logins
import BlobDepot.Proofs.Negotiation
import BlobDepot.Proofs.Observations
import BlobDepot.Proofs.Offers
import BlobDepot.Proofs.Parts
import BlobDepot.Proofs.Passwords
import BlobDepot.Proofs.Placements
import BlobDepot.Proofs.Readings
import BlobDepot.Proofs.References
import BlobDepot.Proofs.Registrations
import BlobDepot.Proofs.Rejections
import BlobDepot.Proofs.Removals
import BlobDepot.Proofs.Requests
import BlobDepot.Proofs.Resolution
import BlobDepot.Proofs.Responses
import BlobDepot.Proofs.Resumptions
import BlobDepot.Proofs.Retries
import BlobDepot.Proofs.Runs
import BlobDepot.Proofs.Sessions
import BlobDepot.Proofs.SortedMap
import BlobDepot.Proofs.Spellings
import BlobDepot.Proofs.Tables
import BlobDepot.Proofs.TomlDocuments
import BlobDepot.Proofs.TomlLines
import BlobDepot.Proofs.TomlNumbers
import BlobDepot.Proofs.TomlTexts
import BlobDepot.Proofs.Transactions
import BlobDepot.Proofs.Trees
import BlobDepot.Proofs.Uploads
import BlobDepot.Proofs.Vaults
import BlobDepot.Proofs.Verdicts
import BlobDepot.Proofs.Verification
import BlobDepot.Proofs.Writes
import BlobDepot.Service
import BlobDepot.SortedMap
import BlobDepot.Text.Basic
import BlobDepot.Text.Describe
import BlobDepot.Vault.Interface
import BlobDepot.Vault.Store
import BlobDepot.Vault.Upload
