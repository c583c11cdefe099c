import StepRunner.Main
import StepRunner.Script.Suite
import StepRunner.Stub.Scripted
import StepRunner.Proofs.RunFile.Flattening
import StepRunner.Proofs.Events
import StepRunner.Proofs.Step.Course
import StepRunner.Proofs.Run.Course
import StepRunner.Proofs.Run.Protocol
import StepRunner.Proofs.Run.Accounting
import StepRunner.Proofs.Session.History
import StepRunner.Proofs.Session.Lifecycle
import StepRunner.Proofs.Run.Interrupt
import StepRunner.Proofs.RunFile.Scan
import StepRunner.Proofs.RunFile.Inclusion
import StepRunner.Proofs.Text.Split
import StepRunner.Proofs.FileTree.Canonical
import StepRunner.Proofs.RunFile.Cycle
import StepRunner.Proofs.RunFile.Expansion
import StepRunner.Proofs.RunFile.Location
import StepRunner.Proofs.Run.Policy
import StepRunner.Proofs.Session.Counting
import StepRunner.Proofs.Command.Ending
import StepRunner.RunFile.Parser
import StepRunner.Proofs.Step.Polling
import StepRunner.Proofs.Report.Lines
import StepRunner.Proofs.RunFile.Reuse
import StepRunner.Proofs.Run.Simulation
import StepRunner.Proofs.Text.Units
import StepRunner.Proofs.Stub.Crossing
import StepRunner.Proofs.Stub.Faithful
import StepRunner.Proofs.Step.Handler
import StepRunner.Proofs.Step.Verdict
import StepRunner.Proofs.FileTree.Writing
import StepRunner.Proofs.Report.Document
import StepRunner.Proofs.Report.Agreement
import StepRunner.Proofs.Session.Reporting
import StepRunner.Proofs.Step.Custody
import StepRunner.Proofs.Step.Attempts
import StepRunner.Proofs.Step.Waiting
import StepRunner.Proofs.Run.Breakdown
import StepRunner.Proofs.RunFile.Mistake
import StepRunner.Proofs.Text.Trim
import StepRunner.Proofs.RunFile.Closing
import StepRunner.Proofs.Text.Double
import StepRunner.Proofs.Step.Compiling
import StepRunner.Proofs.Script.Results
import StepRunner.Proofs.RunFile.Directive
