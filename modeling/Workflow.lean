import Workflow.Builtin
import Workflow.Bus
import Workflow.Bus.Exchange
import Workflow.Cli.Arguments
import Workflow.Cli.Context
import Workflow.Cli.Listing
import Workflow.Cli.Options
import Workflow.Cli.Playback
import Workflow.Cli.Program
import Workflow.Cli.Service
import Workflow.Config.Format
import Workflow.Config.Layers
import Workflow.Config.Record
import Workflow.Config.Types
import Workflow.Control
import Workflow.Error
import Workflow.Event
import Workflow.Event.Format
import Workflow.FileTree
import Workflow.Glob.Match
import Workflow.Glob.Pattern
import Workflow.Handle
import Workflow.Http.Host
import Workflow.Http.Request
import Workflow.Http.Target
import Workflow.Http.Token
import Workflow.Invocation
import Workflow.Json.Basic
import Workflow.Json.Field
import Workflow.Json.Numeral
import Workflow.Json.Pretty
import Workflow.Json.Quoted
import Workflow.Json.Record
import Workflow.Json.Token
import Workflow.Json.Tree
import Workflow.Json.Writer
import Workflow.Main
import Workflow.Manager.Alarm
import Workflow.Manager.Basic
import Workflow.Manager.Refresh
import Workflow.Manager.Webhook
import Workflow.Number.Binary64
import Workflow.Number.Shortest
import Workflow.Path
import Workflow.Pipeline.Document
import Workflow.Pipeline.Format
import Workflow.Pipeline.Intent
import Workflow.Proofs.ActiveRuns
import Workflow.Proofs.Cancellation
import Workflow.Proofs.ChainedRuns
import Workflow.Proofs.CooldownReplays
import Workflow.Proofs.Course
import Workflow.Proofs.Declarations
import Workflow.Proofs.DefaultDirectories
import Workflow.Proofs.FreshListings
import Workflow.Proofs.Itinerary
import Workflow.Proofs.ManagerCourse
import Workflow.Proofs.RefreshPasses
import Workflow.Proofs.Registrations
import Workflow.Proofs.Rehearsals
import Workflow.Proofs.Resolutions
import Workflow.Proofs.RestingChanges
import Workflow.Proofs.Retirement
import Workflow.Proofs.RunEvents
import Workflow.Proofs.Solitude
import Workflow.Proofs.Spacing
import Workflow.Proofs.Stints
import Workflow.Proofs.Successions
import Workflow.Proofs.Trials
import Workflow.Proofs.Upkeep
import Workflow.Proofs.Verdicts
import Workflow.Proofs.WatchAlarms
import Workflow.Proofs.WatchFirings
import Workflow.Proofs.WebhookAnswers
import Workflow.Proofs.Wiring
import Workflow.Registry
import Workflow.Rehearsal.Format
import Workflow.Rehearsal.Script
import Workflow.Rehearsal.Stage
import Workflow.Rehearsal.Timeline
import Workflow.Rehearsal.Triggered
import Workflow.Run
import Workflow.Runner
import Workflow.Shell.Run
import Workflow.Shell.Script
import Workflow.Shell.Session
import Workflow.Shell.Utility
import Workflow.Shell.Word
import Workflow.Step.CommandLine
import Workflow.Step.Compile
import Workflow.Step.Kind
import Workflow.Table
import Workflow.Template
import Workflow.Text.Affix
import Workflow.Text.Blank
import Workflow.Text.Utf8
import Workflow.Time.Clock
import Workflow.Time.Timestamp
import Workflow.Toml.Document
import Workflow.Toml.Quoted
import Workflow.Toml.Scalar
import Workflow.Toml.Value
import Workflow.Trigger.Alarms
import Workflow.Trigger.Chain
import Workflow.Trigger.Cooldown
import Workflow.Trigger.Debounce
import Workflow.Trigger.Definition
import Workflow.Trigger.Discovery
import Workflow.Trigger.Format
import Workflow.Trigger.Scan
import Workflow.Trigger.Schedule
import Workflow.Trigger.Settings
import Workflow.Trigger.Variables
import Workflow.Verdict
import Workflow.Proofs.LateCancellations
import Workflow.Proofs.KeptHandles
import Workflow.Proofs.Shutdowns
import Workflow.Proofs.Tokens
import Workflow.Proofs.Assignments
import Workflow.Proofs.RefreshAlarms
import Workflow.Proofs.DocumentChanges
import Workflow.Proofs.Origins
import Workflow.Proofs.RehearsedRuns
import Workflow.Proofs.DryRuns
import Workflow.Proofs.Reactions
import Workflow.Proofs.Observers
import Workflow.Proofs.Octets
import Workflow.Proofs.Segments
import Workflow.Proofs.FileTrees
import Workflow.Proofs.TriggerIds
import Workflow.Proofs.IdFirings
import Workflow.Proofs.DecimalDigits
import Workflow.Proofs.Moments
import Workflow.Proofs.JsonRecords
import Workflow.Proofs.DocumentForms
import Workflow.Proofs.TomlTexts
import Workflow.Proofs.TomlLines
import Workflow.Proofs.TomlTables
import Workflow.Proofs.TomlIntegers
import Workflow.Proofs.ConfigTables
import Workflow.Proofs.ConfigForms
import Workflow.Proofs.StepKinds
import Workflow.Proofs.CommandForms
import Workflow.Proofs.CommitMessages
import Workflow.Proofs.Attendance
import Workflow.Proofs.RunLengths
import Workflow.Proofs.Waiters
import Workflow.Proofs.Deliveries
import Workflow.Proofs.WholeNumbers
import Workflow.Proofs.Intervals
import Workflow.Proofs.TriggerScans
import Workflow.Proofs.TimerTicks
import Workflow.Proofs.WebhookSecrets
import Workflow.Proofs.EventVariables
import Workflow.Proofs.Warnings
import Workflow.Proofs.ConfigLayers
