import PerpRollout.Main
import PerpRollout.Proofs.Outcome
import PerpRollout.Proofs.Record.Slots
import PerpRollout.Proofs.Registry.Entries
import PerpRollout.Proofs.Registry.Run
import PerpRollout.Proofs.Ledger.Replay
import PerpRollout.Proofs.Ledger.Run
import PerpRollout.Proofs.Ledger.Snapshots
import PerpRollout.Proofs.Ledger.Location
import PerpRollout.Proofs.Json.Sorted
import PerpRollout.Proofs.Json.Overlay
import PerpRollout.Proofs.Json.Place
import PerpRollout.Proofs.Json.Layers
import PerpRollout.Proofs.Ledger.Rollout
import PerpRollout.Proofs.Record.Schema
import PerpRollout.Proofs.Json.Number
import PerpRollout.Proofs.Json.RoundTrip
import PerpRollout.Proofs.Record.RoundTrip
import PerpRollout.Proofs.Record.Normal
import PerpRollout.Proofs.Files
import PerpRollout.Proofs.Files.Growth
import PerpRollout.Proofs.Registry.Reachable
import PerpRollout.Proofs.Registry.File
import PerpRollout.Proofs.Check.Judgement
import PerpRollout.Proofs.Check.Numeral
import PerpRollout.Proofs.Rules.Findings
import PerpRollout.Proofs.Rules.Template
import PerpRollout.Proofs.Rules.Steps
import PerpRollout.Proofs.Plan
import PerpRollout.Proofs.Json.WellFormed
import PerpRollout.Proofs.Registry.Loading
import PerpRollout.Proofs.Registry.Source
import PerpRollout.Proofs.CommandLine.Arguments
import PerpRollout.Proofs.CommandLine.Act
import PerpRollout.Proofs.CommandLine.Perform
import PerpRollout.Proofs.CommandLine.Run
import PerpRollout.Proofs.Registry.Interleaving
import PerpRollout.Proofs.Registry.Mapping
import PerpRollout.Proofs.Registry.Reserved
import PerpRollout.Proofs.Plan.Missing
import PerpRollout.Proofs.Json.Reordered
import PerpRollout.Proofs.Record.Reordered
import PerpRollout.Proofs.Registry.Reordered
import PerpRollout.Proofs.Plan.Message
import PerpRollout.Proofs.Plan.Addresses
import PerpRollout.Proofs.Record.Resolving
import PerpRollout.Proofs.Record.Inherited
import PerpRollout.Proofs.Registry.Inherited
import PerpRollout.Proofs.Numeral
import PerpRollout.Proofs.Decimal.Value
import PerpRollout.Proofs.Decimal.Rounding
import PerpRollout.Proofs.Decimal.Quotient
import PerpRollout.Proofs.Decimal.Plain
import PerpRollout.Proofs.FixedPoint
import PerpRollout.Proofs.FixedPoint.Encoding
import PerpRollout.Proofs.Record.Derived
import PerpRollout.Proofs.CommandLine.Summary
import PerpRollout.Proofs.Plan.Progress
import PerpRollout.Proofs.Registry.Audit
import PerpRollout.Proofs.Registry.Saving
import PerpRollout.Proofs.Naming
