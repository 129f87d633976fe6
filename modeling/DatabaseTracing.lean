import DatabaseTracing.Json.Reader
import DatabaseTracing.Log.Sink
import DatabaseTracing.Log.Subscriber
import DatabaseTracing.Scenario.GroupRun
import DatabaseTracing.Scenario.RegistryRun
import DatabaseTracing.Proofs.SingleFlight.Steps
import DatabaseTracing.Proofs.Registry.Steps
import DatabaseTracing.Proofs.Registry.Invariant
import DatabaseTracing.Proofs.Registry.StableHandle
import DatabaseTracing.Proofs.Pipeline.AfterOrder
import DatabaseTracing.Proofs.Pipeline.Sides
import DatabaseTracing.Proofs.Pipeline.Kinds
import DatabaseTracing.Proofs.Pipeline.TracingHooks
import DatabaseTracing.Proofs.Run.Transparency
import DatabaseTracing.Proofs.SingleFlight.Moves
import DatabaseTracing.Proofs.SingleFlight.Agreement
import DatabaseTracing.Proofs.SingleFlight.Waiters
import DatabaseTracing.Proofs.Sql.Confinement
import DatabaseTracing.Proofs.Run.HookCalls
import DatabaseTracing.Proofs.Run.Snapshot
import DatabaseTracing.Proofs.Run.Instrumented
import DatabaseTracing.Proofs.Telemetry.Edits
import DatabaseTracing.Proofs.Run.OneSpan
import DatabaseTracing.Proofs.SingleFlight.Cancellation
import DatabaseTracing.Proofs.Registry.Cancellation
import DatabaseTracing.Proofs.SingleFlight.Projection
import DatabaseTracing.Proofs.SingleFlight.Renaming
import DatabaseTracing.Proofs.Registry.Projection
import DatabaseTracing.Proofs.Registry.Independence
import DatabaseTracing.Proofs.Run.Confidentiality
import DatabaseTracing.Proofs.Telemetry.Holders
import DatabaseTracing.Proofs.Telemetry.Accounts
import DatabaseTracing.Proofs.Run.Holding
import DatabaseTracing.Proofs.Scenario.SpanLifetimes
import DatabaseTracing.Proofs.Run.SpanStatus
import DatabaseTracing.Proofs.Plugin.Nesting
import DatabaseTracing.Proofs.Plugin.Upkeep
import DatabaseTracing.Proofs.Plugin.Installation
import DatabaseTracing.Proofs.Registry.Publication
import DatabaseTracing.Proofs.Run.Pairing
import DatabaseTracing.Proofs.Telemetry.Origins
import DatabaseTracing.Proofs.Run.Parentage
import DatabaseTracing.Proofs.Plugin.Stages
import DatabaseTracing.Proofs.Sql.Placeholders
import DatabaseTracing.Proofs.Telemetry.Exports
import DatabaseTracing.Proofs.Telemetry.Twins
import DatabaseTracing.Proofs.Run.Crowd
import DatabaseTracing.Proofs.Run.Interleaving
import DatabaseTracing.Proofs.Run.Silence
import DatabaseTracing.Proofs.Telemetry.Kinship
import DatabaseTracing.Proofs.Run.Ledgers
import DatabaseTracing.Proofs.Telemetry.Labels
import DatabaseTracing.Proofs.Run.InForce
import DatabaseTracing.Proofs.Run.Replacements
import DatabaseTracing.Proofs.Scenario.ScriptedHooks
import DatabaseTracing.Proofs.Run.Providers
import DatabaseTracing.Proofs.Pipeline.Registration
import DatabaseTracing.Proofs.Pipeline.Standing
import DatabaseTracing.Proofs.Run.FirstError
import DatabaseTracing.Proofs.Sql.Substitution
import DatabaseTracing.Proofs.Sql.PartialBinding
import DatabaseTracing.Proofs.Run.Reporting
import DatabaseTracing.Proofs.Run.RowCounts
import DatabaseTracing.Proofs.Options.Fields
import DatabaseTracing.Proofs.Settings.Conversion
import DatabaseTracing.Proofs.Options.LastWrite
import DatabaseTracing.Proofs.Text.LossyDecoding
import DatabaseTracing.Proofs.Log.Writers
import DatabaseTracing.Proofs.Settings.RoundTrip
