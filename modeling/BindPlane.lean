import BindPlane.Release.Interference
import BindPlane.Release.QueueKept
import BindPlane.Release.StoreKept
import BindPlane.Release.Exclusion
import BindPlane.Release.Fencing
import BindPlane.Release.Confirmation
import BindPlane.Coroutine.Program
import BindPlane.Worker.Execute
import BindPlane.Worker.Discipline
import BindPlane.Worker.World
import BindPlane.Release.Claims
import BindPlane.Worker.Books
import BindPlane.Worker.Commands
import BindPlane.Release.Sweep
import BindPlane.Worker.Authority
import BindPlane.Worker.Revisions
import BindPlane.Worker.Endings
import BindPlane.Worker.Keepalive
import BindPlane.Devices.Cron
import BindPlane.Devices.Data
import BindPlane.Devices.Enqueue
import BindPlane.Devices.Schedules
import BindPlane.Devices.Executor
import BindPlane.Devices.Service
import BindPlane.Devices.Commits
import BindPlane.Devices.Steps
import BindPlane.Devices.Interference
import BindPlane.Devices.ItemsKept
import BindPlane.Devices.Enqueuing
import BindPlane.Devices.EditsKept
import BindPlane.Devices.Alerts
import BindPlane.Devices.Runs
import BindPlane.Devices.Backups
import BindPlane.Devices.Ticks
import BindPlane.Codec.Base64
import BindPlane.Codec.Envelope
import BindPlane.Paging.Keyset
import BindPlane.Paging.Moving
import BindPlane.Net.Address
import BindPlane.Net.Text
import BindPlane.Limiter.Bucket
import BindPlane.Limiter.Store
import BindPlane.Limiter.Retention
import BindPlane.Assets.Data
import BindPlane.Assets.Requests
import BindPlane.Assets.Edit
import BindPlane.Assets.Stored
import BindPlane.Assets.Log
import BindPlane.Assets.Server
import BindPlane.ReadCommitted.Pairs
import BindPlane.Assets.Secrets
import BindPlane.Assets.Columns
import BindPlane.Mail.Data
import BindPlane.Mail.Outbox
import BindPlane.Mail.Commits
import BindPlane.Mail.Kept
import BindPlane.Mail.History
import BindPlane.Legacy.Data
import BindPlane.Legacy.Requests
import BindPlane.Legacy.Application
import BindPlane.Legacy.Discipline
import BindPlane.Legacy.Commits
import BindPlane.Legacy.Kept
import BindPlane.Legacy.Retries
import BindPlane.Legacy.Claims
import BindPlane.Legacy.Resolution
import BindPlane.Codec.Pieces
import BindPlane.Codec.Tally
import BindPlane.Cron.Fields
import BindPlane.Cron.Gregorian
import BindPlane.Cron.Next
import BindPlane.Cron.Progress
import BindPlane.Cron.Fixed
import BindPlane.Cron.Location
import BindPlane.Cron.Runs
import BindPlane.Cron.Describe
import BindPlane.Server.Lifecycle
import BindPlane.Coroutine.Shared
import BindPlane.Settings.Data
import BindPlane.Settings.Save
import BindPlane.Settings.Kept
import BindPlane.Auth.Data
import BindPlane.Auth.Recovery
import BindPlane.Auth.EmailChange
import BindPlane.Auth.Access
import BindPlane.Auth.Invitations
import BindPlane.Auth.Sessions
import BindPlane.Auth.Lifecycle
import BindPlane.Auth.Service
import BindPlane.Auth.Moves
import BindPlane.Auth.Interference
import BindPlane.Auth.Commits
import BindPlane.Auth.Journal
import BindPlane.Auth.Kept
import BindPlane.Auth.KeptRecovery
import BindPlane.Auth.KeptAccess
import BindPlane.Auth.KeptEmailChange
import BindPlane.Auth.KeptInvitations
import BindPlane.Auth.KeptLifecycle
import BindPlane.Auth.KeptSessions
import BindPlane.ReadCommitted.Committed
import BindPlane.Auth.KeptService
import BindPlane.Auth.Counting
import BindPlane.Auth.Admins
import BindPlane.Auth.Addresses
import BindPlane.Auth.Resets
import BindPlane.Auth.Acceptances
import BindPlane.Auth.Versions
import BindPlane.Auth.Codes
import BindPlane.Auth.Grants
import BindPlane.Auth.Logins
import BindPlane.Auth.Lifetimes
import BindPlane.Auth.Credentials
import BindPlane.Auth.Avatar
import BindPlane.Auth.SourceIP
import BindPlane.Auth.UserList
import BindPlane.Auth.UserPages
import BindPlane.Auth.OperationLog
import BindPlane.Mail.Listing
import BindPlane.Selection.Best
import BindPlane.Worker.Verdict
import BindPlane.Codec.Decimal
import BindPlane.Release.Prefixes
import BindPlane.Codec.Trim
import BindPlane.Codec.JsonDoc
import BindPlane.Devices.Fingerprint
import BindPlane.Limiter.Rate
import BindPlane.Limiter.Machine
import BindPlane.Devices.BackUp
import BindPlane.Devices.BackUpsEnd
import BindPlane.Diff.Script
import BindPlane.Diff.EditGraph
import BindPlane.Release.Diff
import BindPlane.Release.Alignment
import BindPlane.Release.Hunks
import BindPlane.Release.EditValues
import BindPlane.Release.EditsHeld
import BindPlane.Release.Imports
import BindPlane.Release.ImportRuns
import BindPlane.Release.Reimports
import BindPlane.Auth.Walks
import BindPlane.Graph.Descent
import BindPlane.Auth.Permissions
import BindPlane.Auth.Dependencies
import BindPlane.Mail.Delivery
import BindPlane.Mail.Dispatcher
import BindPlane.Mail.Drain
import BindPlane.Server.Origin
import BindPlane.Devices.Convergence
