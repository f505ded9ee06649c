import PipeShell.CommandLine
import PipeShell.Job.Errand
import PipeShell.Line.Token
import PipeShell.Main
import PipeShell.Proofs.Job.Allowance
import PipeShell.Proofs.Job.Composition
import PipeShell.Proofs.Job.Custody
import PipeShell.Proofs.Job.Detachment
import PipeShell.Proofs.Job.FirstFailure
import PipeShell.Proofs.Job.Heeding
import PipeShell.Proofs.Job.Isolation
import PipeShell.Proofs.Job.Launch
import PipeShell.Proofs.Job.Lockstep
import PipeShell.Proofs.Job.Preparation
import PipeShell.Proofs.Job.Reports
import PipeShell.Proofs.Job.Restoration
import PipeShell.Proofs.Job.Waiting
import PipeShell.Proofs.Job.WiringExact
import PipeShell.Proofs.Line.Bounds
import PipeShell.Proofs.Line.Column
import PipeShell.Proofs.Line.Exactness
import PipeShell.Proofs.Line.Image
import PipeShell.Proofs.Line.Layout
import PipeShell.Proofs.Session.Faithful
import PipeShell.Proofs.Session.Fold
import PipeShell.Proofs.Session.Frame
import PipeShell.Proofs.Session.Interpreter
import PipeShell.Proofs.Session.OnMachine
import PipeShell.Proofs.Session.Output
import PipeShell.Proofs.Session.RawLines
import PipeShell.Proofs.Session.SingleShot
import PipeShell.Proofs.Session.Status
import PipeShell.Proofs.Settings.Items
