import FitSession.Document.Costs
import FitSession.Document.Faults
import FitSession.Document.Reader
import FitSession.Document.Scripts
import FitSession.Document.Sessions
import FitSession.Document.Setup
import FitSession.Document.Writer
import FitSession.Engine.QuasiNewton
import FitSession.Snapshot.Reader
import FitSession.Snapshot.Writer
import FitSession.Proofs.Outcome
import FitSession.Proofs.Session.Command
import FitSession.Proofs.Address
import FitSession.Proofs.Bench
import FitSession.Proofs.Session.Write
import FitSession.Proofs.Engine.Contract
import FitSession.Proofs.Session.Aside
import FitSession.Proofs.Session.Change
import FitSession.Proofs.Session.Built
import FitSession.Proofs.Session.CopyOnWrite
import FitSession.Proofs.Session.Frozen
import FitSession.Proofs.Engine.QuasiNewton
import FitSession.Proofs.Session.Failure
import FitSession.Proofs.Minimizer.LineSearch
import FitSession.Proofs.Minimizer.Solvers
import FitSession.Proofs.Derivative
import FitSession.Proofs.Coordinates.Problem
import FitSession.Proofs.Coordinates.Map
import FitSession.Proofs.Covariance.Alignment
import FitSession.Proofs.Covariance.Labelled
import FitSession.Proofs.Session.Covariance
import FitSession.Proofs.Engine.Scripted
import FitSession.Proofs.Scalar
import FitSession.Proofs.Coordinates.History
import FitSession.Proofs.Engine.Lowest
import FitSession.Proofs.Cost.Sum
import FitSession.Proofs.Cost.Composition
import FitSession.Proofs.Session.Warnings
import FitSession.Proofs.Session.Errordef
import FitSession.Proofs.Engine.Crossing
import FitSession.Proofs.Session.Minimum
import FitSession.Proofs.Session.Limits
import FitSession.Proofs.Snapshot.RoundTrip
import FitSession.Proofs.Snapshot.Lossless
import FitSession.Proofs.State.Entries
import FitSession.Proofs.State.Finite
import FitSession.Proofs.Session.Attempts
import FitSession.Proofs.Session.MinosErrors
import FitSession.Proofs.Session.Intervals
import FitSession.Proofs.Engine.Recount
import FitSession.Proofs.Session.SideBySide
import FitSession.Proofs.Session.Scan
import FitSession.Proofs.Engine.Evaluations
import FitSession.Proofs.Engine.Interchange
import FitSession.Proofs.Engine.FiniteObjective
import FitSession.Proofs.Engine.FiniteRecords
import FitSession.Proofs.Session.Hesse
import FitSession.Proofs.Session.Edits
import FitSession.Proofs.Session.States
import FitSession.Proofs.Covariance.Errordef
import FitSession.Proofs.Session.Marks
import FitSession.Proofs.Session.Descent
import FitSession.Proofs.Covariance.Reduced
import FitSession.Proofs.Naming
import FitSession.Proofs.Naming.CallText
import FitSession.Proofs.Start.Accepted
import FitSession.Proofs.Session.Overrides
import FitSession.Proofs.Covariance.Inverted
import FitSession.Proofs.Covariance.Semidefinite
import FitSession.Proofs.Address.Registered
import FitSession.Proofs.Address.Walk
import FitSession.Proofs.State.Order
import FitSession.Proofs.Session.Slices
import FitSession.Proofs.Cost.Gradient
import FitSession.Proofs.Cost.Differentiable
import FitSession.Proofs.Session.Forced
import FitSession.Proofs.Cost.NormalConstraint
import FitSession.Proofs.Derivative.Quadratic
import FitSession.Proofs.Engine.Contour
import FitSession.Proofs.Engine.Parabola
import FitSession.Proofs.Engine.Budget
import FitSession.Proofs.Coordinates.Gradient
import FitSession.Proofs.Coordinates.Chain
import FitSession.Proofs.Covariance.Correlation
import FitSession.Proofs.Session.ScanGrid
import FitSession.Proofs.Session.Pointwise
