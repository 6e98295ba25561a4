import Vigil.CommandLine.Perform
import Vigil.Process.Table
import Vigil.Rehearsal.ReapRun
import Vigil.Watch.Session
import Vigil.Proofs.Health.Ratchet
import Vigil.Proofs.Watch.InStep
import Vigil.Proofs.Watch.Reaps
import Vigil.Proofs.Watch.Observed
import Vigil.Proofs.Rehearsal.Tracking
import Vigil.Proofs.Reap.Contract
import Vigil.Proofs.Watch.Outcome
import Vigil.Proofs.Health.Spent
import Vigil.Proofs.Watch.AfterReap
import Vigil.Proofs.Evidence.Counts
import Vigil.Proofs.Evidence.Loops
import Vigil.Proofs.Evidence.Rings
import Vigil.Proofs.Health.Detection
import Vigil.Proofs.Evidence.History
import Vigil.Proofs.Health.Acts
import Vigil.Proofs.Text.Quoted
import Vigil.Proofs.Health.CleanSlate
import Vigil.Proofs.Health.LastLine
import Vigil.Proofs.Evidence.Detectors
import Vigil.Proofs.Watch.Looks
import Vigil.Proofs.Watch.Sessions
import Vigil.Proofs.Watch.Escalation
import Vigil.Proofs.Watch.Recording
import Vigil.Proofs.Supervisor.Accounting
import Vigil.Proofs.Health.Patience
import Vigil.Proofs.Reap.Duration
import Vigil.Proofs.Reap.Grace
import Vigil.Proofs.Rehearsal.Reaping
import Vigil.Proofs.Process.Tree
import Vigil.Proofs.Settings.Limits
import Vigil.Proofs.Health.Overflow
import Vigil.Proofs.Process.Metering
import Vigil.Proofs.Output.Shapes
import Vigil.Proofs.Output.Separators
import Vigil.Proofs.Output.Scrubbing
import Vigil.Proofs.Output.Concealment
import Vigil.Proofs.Decimal.Rounding
import Vigil.Proofs.Evidence.Groups
import Vigil.Proofs.Evidence.Load
import Vigil.Proofs.Evidence.Reports
import Vigil.Proofs.Output.Lines
import Vigil.Proofs.Rehearsal.Reading
import Vigil.Proofs.Rehearsal.StreamEnds
import Vigil.Proofs.Report.Publication
import Vigil.Proofs.Health.Readings
