import Coordination.Json.Parse
import Coordination.Event
import Coordination.Timestamp
import Coordination.Ledger
import Coordination.Gate.Desk
import Coordination.Context.Sharing
import Coordination.Workflow
import Coordination.Body
import Coordination.Report
import Coordination.Clock
import Coordination.Script
import Coordination.Event.Json
import Coordination.Record.Json
import Coordination.Catalog
import Coordination.Config.Json
import Coordination.OutputKey
import Coordination.Template
import Coordination.Config.Yaml
import Coordination.Proofs.Journal.Level
import Coordination.Proofs.Gate.Balance
import Coordination.Proofs.Gate.Attendance
import Coordination.Proofs.Gate.Conservation
import Coordination.Proofs.Gate.Occupancy
import Coordination.Proofs.Gate.Turns
import Coordination.Proofs.Ledger.Entry
import Coordination.Proofs.Ledger.Upkeep
import Coordination.Proofs.Ledger.Settled
import Coordination.Proofs.OutputKey
import Coordination.Proofs.Run.History
import Coordination.Proofs.Run.Log
import Coordination.Proofs.Run.Moments
import Coordination.Proofs.Run.Visit
import Coordination.Proofs.Run.Session
import Coordination.Proofs.Run.Accord
import Coordination.Proofs.Run.Tally
import Coordination.Proofs.Run.Underway
import Coordination.Proofs.Run.Publication
import Coordination.Proofs.Run.Places
import Coordination.Proofs.Run.Snapshots
import Coordination.Proofs.Run.FanOut
import Coordination.Proofs.Run.Deadline
import Coordination.Proofs.Run.ByClock
import Coordination.Proofs.Run.Tracing
import Coordination.Proofs.Template
import Coordination.Proofs.Run.Course
import Coordination.Proofs.Run.Serving
import Coordination.Proofs.Run.Verdict
import Coordination.Proofs.Run.Telling
import Coordination.Proofs.Run.Steady
import Coordination.Proofs.Run.Agreement
import Coordination.Proofs.Run.Schedule
import Coordination.Proofs.Run.InTurn
import Coordination.Proofs.Run.Stages
import Coordination.Proofs.Run.Pipeline
import Coordination.Proofs.Run.Line
import Coordination.Proofs.Run.Slots
import Coordination.Proofs.Run.Starts
import Coordination.Proofs.Run.Ending
import Coordination.Proofs.Run.OneWorker
import Coordination.Proofs.Run.Composition
import Coordination.Proofs.Run.Nesting
import Coordination.Proofs.Ledger.Refusal
import Coordination.Proofs.Ledger.Running
import Coordination.Proofs.Ledger.Timeless
import Coordination.Proofs.Ledger.Independence
import Coordination.Proofs.Run.InFlight
import Coordination.Proofs.Run.Bookkeeping
import Coordination.Proofs.Run.Expiry
import Coordination.Proofs.Run.Progress
import Coordination.Proofs.Run.Writing
import Coordination.Proofs.Run.OneSession
import Coordination.Proofs.Run.Handover
import Coordination.Proofs.Context.Lineage
import Coordination.Proofs.Context.Kinship
import Coordination.Proofs.Ledger.Naming
import Coordination.Proofs.Run.Conduct
import Coordination.Proofs.Run.Within
import Coordination.Proofs.Run.Measuring
import Coordination.Proofs.Run.Account
import Coordination.Proofs.Run.Returns
import Coordination.Proofs.Run.Quiet
import Coordination.Proofs.Run.Successes
import Coordination.Proofs.Run.Metrics
import Coordination.Proofs.Run.Seats
import Coordination.Proofs.Run.Separation
import Coordination.Proofs.Run.Sessions
import Coordination.Proofs.Template.Occurrence
import Coordination.Proofs.Template.Rendering
import Coordination.Proofs.Template.Names
import Coordination.Proofs.Timestamp.Calendar
import Coordination.Proofs.Timestamp.Written
import Coordination.Proofs.Json.Data
import Coordination.Proofs.Json.RoundTrip
import Coordination.Proofs.Run.Lifetime
import Coordination.Proofs.Catalog
import Coordination.Proofs.Config.Building
import Coordination.Proofs.Config.Inheritance
import Coordination.Proofs.Gate.Admission
import Coordination.Proofs.Run.Fairness
import Coordination.Proofs.Run.Refusal
import Coordination.Proofs.OutputKey.Making
import Coordination.Proofs.Template.Reference
import Coordination.Proofs.Run.Overwriting
import Coordination.Proofs.Gate.Outcomes
import Coordination.Proofs.Run.Pursuit
import Coordination.Proofs.Run.SharedSession
import Coordination.Proofs.Run.Wording
