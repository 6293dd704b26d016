import JobTrail.Main
import JobTrail.Startup
import JobTrail.Database.Row
import JobTrail.Database.Bind
import JobTrail.Database.Bound
import JobTrail.Http.Site
import JobTrail.Api.Reply
import JobTrail.Proofs.Results
import JobTrail.Proofs.Settings
import JobTrail.Proofs.Value.Record
import JobTrail.Proofs.Value.Within
import JobTrail.Proofs.Form
import JobTrail.Proofs.Patch
import JobTrail.Proofs.Text.Casing
import JobTrail.Proofs.Value.RoundTrip
import JobTrail.Proofs.Value.NormalForm
import JobTrail.Proofs.Value.Document
import JobTrail.Proofs.Command.Transcoding
import JobTrail.Proofs.Value.Edits
import JobTrail.Proofs.Value.Collisions
import JobTrail.Proofs.Sql.Query
import JobTrail.Proofs.Sql.Reading
import JobTrail.Proofs.Sql.Laws
import JobTrail.Proofs.Sql.Updates
import JobTrail.Proofs.Sql.Placeholders
import JobTrail.Proofs.Storage
import JobTrail.Proofs.Tenancy.Ownership
import JobTrail.Proofs.Tenancy.Queries
import JobTrail.Proofs.Tenancy.Guarded
import JobTrail.Proofs.Tenancy.Rules
import JobTrail.Proofs.Tenancy.Calls
import JobTrail.Proofs.Tenancy.Isolation
import JobTrail.Proofs.Storage.Runs
import JobTrail.Proofs.Resume.Statements
import JobTrail.Proofs.Resume.Primary
import JobTrail.Proofs.Resume.Requests
import JobTrail.Proofs.Update.Alignment
import JobTrail.Proofs.Update.Rendering
import JobTrail.Proofs.Update.Independence
import JobTrail.Proofs.Gate.Checks
import JobTrail.Proofs.Gate.Handlers
import JobTrail.Proofs.Gate.Endpoints
import JobTrail.Proofs.Gate.Admission
import JobTrail.Proofs.Blob.Disk
import JobTrail.Proofs.Blob.Paths
import JobTrail.Proofs.Blob.Store
import JobTrail.Proofs.Storage.Faults
import JobTrail.Proofs.User.Targets
import JobTrail.Proofs.User.Profiles
import JobTrail.Proofs.Resume.Spellings
import JobTrail.Proofs.Storage.Protocols
import JobTrail.Proofs.Resume.Filing
import JobTrail.Proofs.Resume.Retention
import JobTrail.Proofs.Storage.Races
import JobTrail.Proofs.Resume.Races
import JobTrail.Proofs.Checklist.Races
import JobTrail.Proofs.Checklist.Posts
import JobTrail.Proofs.User.Signups
import JobTrail.Proofs.Company.Creation
import JobTrail.Proofs.Service.Composition
import JobTrail.Proofs.Service.Calls
import JobTrail.Proofs.Service.Faults
import JobTrail.Proofs.Service.Ids
import JobTrail.Proofs.Blob.Locations
import JobTrail.Proofs.Token.Issuing
import JobTrail.Proofs.Http.Origins
import JobTrail.Proofs.Value.Plain
import JobTrail.Proofs.Update.WriteBack
import JobTrail.Proofs.Password
import JobTrail.Proofs.User.Logins
import JobTrail.Proofs.Text.Base64
import JobTrail.Proofs.Value.Numeral
import JobTrail.Proofs.Value.Reading
import JobTrail.Proofs.Token.Verifying
import JobTrail.Proofs.Text.Splitting
import JobTrail.Proofs.Text.Percent
import JobTrail.Proofs.Url.Parts
import JobTrail.Proofs.Url.Userinfo
import JobTrail.Proofs.Url.Queries
import JobTrail.Proofs.Database.Masking
import JobTrail.Proofs.Text.Bytes
import JobTrail.Proofs.Form.Sequences
import JobTrail.Proofs.Form.Drafts
import JobTrail.Proofs.Form.Addresses
import JobTrail.Proofs.Text.Integers
import JobTrail.Proofs.Settings.Lifetimes
import JobTrail.Proofs.Settings.Precedence
import JobTrail.Proofs.Database.Binding
import JobTrail.Proofs.Database.Rows
import JobTrail.Proofs.Decimal.Exact
import JobTrail.Proofs.Decimal.Spelled
import JobTrail.Proofs.Database.Integers
import JobTrail.Proofs.Blob.Uploads
import JobTrail.Proofs.Http.Disposition
import JobTrail.Proofs.Resume.Attachments
import JobTrail.Proofs.Value.Leading
import JobTrail.Proofs.Company.Insertion
