import Agend.Library.Trace
import Agend.Library.Table
import Agend.Client.Tui
import Agend.Pipeline.Errors
import Agend.Pipeline.Restart
import Agend.Pipeline.Consumed
import Agend.Pipeline.Observe
import Agend.Pipeline.Fanout
import Agend.Pipeline.Authority
import Agend.Pipeline.Progress
import Agend.Telegram.Receipts
import Agend.Telegram.Ledger
import Agend.Runtime.Coherent
import Agend.Runtime.Switching
import Agend.Engine.Reviewers
import Agend.Engine.Executable
import Agend.Engine.Removal
import Agend.Tasks.Rows
import Agend.Supervisor.Restart
import Agend.Supervisor.Discipline
import Agend.Terminal.Link
import Agend.Terminal.Gapless
import Agend.Holder.Control
import Agend.Holder.Server
import Agend.Holder.Ownership
import Agend.Holder.Exclusive
import Agend.Library.History
import Agend.Forge.Local
import Agend.Forge.Once
import Agend.Tasks.Atomic
import Agend.Tasks.Linear
import Agend.Forge.Merging
import Agend.Runtime.Startup
import Agend.Runtime.StartupKeys
import Agend.Runtime.OpenCode
import Agend.Runtime.OpenCodeOnce
import Agend.Runtime.OpenCodeReceipts
import Agend.OpenCode.Claim
import Agend.OpenCode.Granted
import Agend.Version.Drift
import Agend.Claude.Idle
import Agend.FullTerminal.Typing
import Agend.Delivery.Fenced
import Agend.Codex.Order
import Agend.Shim.Routed
import Agend.Pipeline.Quoting
import Agend.Connection.Bounded
import Agend.Connection.Once
import Agend.Assign.WaitCycle
import Agend.Assign.Choose
import Agend.Assign.Safe
import Agend.Scrollback.Stable
import Agend.Asks.Served
import Agend.Library.Processes
import Agend.Library.Graphql
import Agend.Telegram.Parts
import Agend.Codex.Receipts
import Agend.Codex.Cursors
import Agend.Shim.Hook
import Agend.Shim.Graphql
import Agend.Library.Calendar
import Agend.Snapshots.Dates
import Agend.Snapshots.Names
import Agend.Library.Effect
import Agend.Snapshots.Rotation
import Agend.Snapshots.Kept
import Agend.Library.Plist
import Agend.Library.UnitFile
import Agend.Setup.Service
import Agend.Setup.Runs
import Agend.Setup.Exact
import Agend.Spool.Applied
import Agend.Library.Options
import Agend.Shim.GitOptions
import Agend.Shim.Destroys
import Agend.Shim.Switches
import Agend.Library.Framing
import Agend.Library.Buffered
import Agend.Sockets.Readers
import Agend.Sockets.Framed
import Agend.Library.Reads
import Agend.Library.Serde
import Agend.Library.Fields
import Agend.OneShot.Diagnostics
import Agend.OneShot.Data
import Agend.OneShot.Native
import Agend.OneShot.Staged
import Agend.OneShot.Agree
import Agend.Github.Applied
