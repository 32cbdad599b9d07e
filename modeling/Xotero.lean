import Xotero.Config
import Xotero.Domain
import Xotero.Foundation.Fates
import Xotero.Foundation.Feed
import Xotero.Foundation.Fibers
import Xotero.Foundation.Glob
import Xotero.Foundation.Leading
import Xotero.Foundation.Locking
import Xotero.Foundation.Paging
import Xotero.Foundation.Processes
import Xotero.Foundation.Reader
import Xotero.Foundation.Rejection
import Xotero.Foundation.Retries
import Xotero.Foundation.Schedule
import Xotero.Foundation.Semaphore
import Xotero.Foundation.Snapshots
import Xotero.Foundation.Table
import Xotero.Foundation.Ternary
import Xotero.Foundation.TwoRun
import Xotero.Foundation.Txn
import Xotero.Foundation.Views
import Xotero.Foundation.Waiting
import Xotero.Guarantees.Acceptance
import Xotero.Guarantees.Attachments
import Xotero.Guarantees.Authority
import Xotero.Guarantees.Blobs
import Xotero.Guarantees.Bodies
import Xotero.Guarantees.Bootstrap
import Xotero.Guarantees.Capabilities
import Xotero.Guarantees.Cleanup
import Xotero.Guarantees.Concurrency
import Xotero.Guarantees.Confinement
import Xotero.Guarantees.Consistency
import Xotero.Guarantees.Continuity
import Xotero.Guarantees.Cursors
import Xotero.Guarantees.Deadlock
import Xotero.Guarantees.Deletions
import Xotero.Guarantees.Disclosure
import Xotero.Guarantees.Discovery
import Xotero.Guarantees.Enrollment
import Xotero.Guarantees.FieldOrder
import Xotero.Guarantees.FilePolicy
import Xotero.Guarantees.Filters
import Xotero.Guarantees.Fulltext
import Xotero.Guarantees.GeneratedKeys
import Xotero.Guarantees.Isolation
import Xotero.Guarantees.KeyChances
import Xotero.Guarantees.LoginKeys
import Xotero.Guarantees.Merging
import Xotero.Guarantees.Mirrors
import Xotero.Guarantees.Notes
import Xotero.Guarantees.Orphans
import Xotero.Guarantees.PageArithmetic
import Xotero.Guarantees.Paging
import Xotero.Guarantees.RecoveryKeys
import Xotero.Guarantees.Registration
import Xotero.Guarantees.SettingsWrites
import Xotero.Guarantees.Snapshots
import Xotero.Guarantees.Sync
import Xotero.Guarantees.TagCounts
import Xotero.Guarantees.TagRemoval
import Xotero.Guarantees.Tags
import Xotero.Guarantees.WellFormed
import Xotero.Handlers.Authorization
import Xotero.Handlers.Cleanup
import Xotero.Handlers.Files
import Xotero.Handlers.Gets
import Xotero.Handlers.Items
import Xotero.Handlers.Listings
import Xotero.Handlers.Login
import Xotero.Handlers.LoginEffects
import Xotero.Handlers.LoginKey
import Xotero.Handlers.Mutations
import Xotero.Handlers.UploadPut
import Xotero.Http.Body
import Xotero.Http.Decoders
import Xotero.Http.Middleware
import Xotero.Http.Router
import Xotero.Http.Serve
import Xotero.Http.Urlencoded
import Xotero.Json.Jsonb
import Xotero.Json.Normal
import Xotero.Query
import Xotero.Store.Authority
import Xotero.Store.AuthorityLocks
import Xotero.Store.Bootstrap
import Xotero.Store.Commits
import Xotero.Store.Database
import Xotero.Store.Edits
import Xotero.Store.Effects
import Xotero.Store.Entries
import Xotero.Store.Files
import Xotero.Store.Groups
import Xotero.Store.History
import Xotero.Store.Library
import Xotero.Store.Objects
import Xotero.Store.Registration
import Xotero.Store.Rows
import Xotero.Store.Search
import Xotero.Store.Server
import Xotero.Store.Settings
import Xotero.Store.Stamps
import Xotero.Store.Statement
import Xotero.Store.Uploads
import Xotero.Store.Versions
import Xotero.Store.Visible
import Xotero.Guarantees.Decoders
import Xotero.Guarantees.KeyAccess
import Xotero.Guarantees.Downloads
import Xotero.Store.Migrations
import Xotero.Guarantees.Migrations
import Xotero.Foundation.Atomicity
import Xotero.Guarantees.Linearizability
import Xotero.Guarantees.Uploading
import Xotero.Foundation.Hosting
import Xotero.Guarantees.Reclaiming
