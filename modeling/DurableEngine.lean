import DurableEngine.Api.Documents
import DurableEngine.Api.Fingerprint
import DurableEngine.Api.Leases
import DurableEngine.Api.Pages
import DurableEngine.Api.Requests
import DurableEngine.Campaign.Arrivals
import DurableEngine.Campaign.Ending
import DurableEngine.Campaign.Load
import DurableEngine.Engine.Accepted
import DurableEngine.Engine.Branches
import DurableEngine.Engine.Consumption
import DurableEngine.Engine.Decoders
import DurableEngine.Engine.Discipline
import DurableEngine.Engine.Graph
import DurableEngine.Engine.Joins
import DurableEngine.Engine.Linear
import DurableEngine.Engine.Nodes
import DurableEngine.Engine.Renaming
import DurableEngine.Engine.Repeats
import DurableEngine.Engine.Resumption
import DurableEngine.Engine.Revisits
import DurableEngine.Engine.Routing
import DurableEngine.Engine.Run
import DurableEngine.Engine.Scans
import DurableEngine.Engine.Serve
import DurableEngine.Engine.Successors
import DurableEngine.Engine.System
import DurableEngine.Engine.Timers
import DurableEngine.Engine.Turns
import DurableEngine.IncidentAgent.Approved
import DurableEngine.IncidentAgent.Books
import DurableEngine.IncidentAgent.Chains
import DurableEngine.IncidentAgent.Finishing
import DurableEngine.IncidentAgent.Investigations
import DurableEngine.IncidentAgent.Providers
import DurableEngine.IncidentAgent.Redaction
import DurableEngine.IncidentAgent.Reservations
import DurableEngine.IncidentAgent.Restraint
import DurableEngine.IncidentAgent.SpendCap
import DurableEngine.IncidentAgent.SpendLedger
import DurableEngine.IncidentAgent.Workflow
import DurableEngine.Invariants.Approvals
import DurableEngine.Invariants.Attempts
import DurableEngine.Invariants.Checker
import DurableEngine.Invariants.Checkpoints
import DurableEngine.Invariants.Exports
import DurableEngine.Invariants.FaultRecords
import DurableEngine.Invariants.FaultTrace
import DurableEngine.Invariants.Histories
import DurableEngine.Invariants.Transitions
import DurableEngine.Invariants.Transport
import DurableEngine.Lib.Alone
import DurableEngine.Lib.Compact
import DurableEngine.Lib.Decimal
import DurableEngine.Lib.Durable
import DurableEngine.Lib.Ensures
import DurableEngine.Lib.Json
import DurableEngine.Lib.JsonText
import DurableEngine.Lib.JsonValue
import DurableEngine.Lib.Keyed
import DurableEngine.Lib.Marshal
import DurableEngine.Lib.Measure
import DurableEngine.Lib.Numbered
import DurableEngine.Lib.Path
import DurableEngine.Lib.Prog
import DurableEngine.Lib.PythonJson
import DurableEngine.Lib.PythonText
import DurableEngine.Lib.Quote
import DurableEngine.Lib.Reading
import DurableEngine.Lib.Regex
import DurableEngine.Lib.RoundTrip
import DurableEngine.Lib.Rounding
import DurableEngine.Lib.Search
import DurableEngine.Lib.Sha256
import DurableEngine.Lib.Shape
import DurableEngine.Lib.Source
import DurableEngine.Lib.Spelling
import DurableEngine.Lib.Table
import DurableEngine.Lib.Text
import DurableEngine.Lib.Time
import DurableEngine.Lib.Tokens
import DurableEngine.Lib.Trace
import DurableEngine.Lib.Tx
import DurableEngine.Lib.Unmarshal
import DurableEngine.Reference.Model
import DurableEngine.Services.Announced
import DurableEngine.Services.Approvals
import DurableEngine.Services.Arguments
import DurableEngine.Services.Arrival
import DurableEngine.Services.AtMostOnce
import DurableEngine.Services.Awaiting
import DurableEngine.Services.CallLedger
import DurableEngine.Services.Comparison
import DurableEngine.Services.Consumer
import DurableEngine.Services.Convergence
import DurableEngine.Services.Dedupe
import DurableEngine.Services.Demand
import DurableEngine.Services.Disposition
import DurableEngine.Services.Due
import DurableEngine.Services.EffectService
import DurableEngine.Services.Evidence
import DurableEngine.Services.Exclusion
import DurableEngine.Services.HandBuilt
import DurableEngine.Services.Obligated
import DurableEngine.Services.Offsets
import DurableEngine.Services.Placement
import DurableEngine.Services.Racing
import DurableEngine.Services.Reconciler
import DurableEngine.Services.References
import DurableEngine.Services.Relay
import DurableEngine.Services.RelaySafety
import DurableEngine.Services.Resolutions
import DurableEngine.Services.Rollout
import DurableEngine.Services.Script
import DurableEngine.Services.Wakeups
import DurableEngine.Services.Watermark
import DurableEngine.Services.World
import DurableEngine.State.Admission
import DurableEngine.State.Ambiguity
import DurableEngine.State.AttemptLife
import DurableEngine.State.Attempts
import DurableEngine.State.Budget
import DurableEngine.State.Checkpoints
import DurableEngine.State.Claims
import DurableEngine.State.Collation
import DurableEngine.State.Commit
import DurableEngine.State.CommitGraph
import DurableEngine.State.EffectLedger
import DurableEngine.State.Effects
import DurableEngine.State.Fencing
import DurableEngine.State.Generations
import DurableEngine.State.Graph
import DurableEngine.State.GraphOps
import DurableEngine.State.History
import DurableEngine.State.Idempotency
import DurableEngine.State.Identity
import DurableEngine.State.Inbox
import DurableEngine.State.Intents
import DurableEngine.State.NodeLife
import DurableEngine.State.Obligations
import DurableEngine.State.Outbox
import DurableEngine.State.Owner
import DurableEngine.State.Provision
import DurableEngine.State.Quoting
import DurableEngine.State.Reconcile
import DurableEngine.State.Recovery
import DurableEngine.State.Results
import DurableEngine.State.Signatures
import DurableEngine.State.Statements
import DurableEngine.State.Store
import DurableEngine.State.Submission
import DurableEngine.State.Submitting
import DurableEngine.State.Terminal
import DurableEngine.State.Types
import DurableEngine.Workers.Polling
import DurableEngine.Workers.Runner
import DurableEngine.Workers.Slots
