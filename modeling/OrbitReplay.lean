import OrbitReplay.Grid.Run
import OrbitReplay.Dense.Run
import OrbitReplay.Dense.Solution
import OrbitReplay.Dense.Source
import OrbitReplay.Dense.Steps
import OrbitReplay.Replay.Session
import OrbitReplay.Nearest.Run
import OrbitReplay.State.Run
import OrbitReplay.Proofs.Grid.Contents
import OrbitReplay.Proofs.Grid.Hint
import OrbitReplay.Proofs.Grid.Outcome
import OrbitReplay.Proofs.Replay.History
import OrbitReplay.Proofs.Dense.Span
import OrbitReplay.Proofs.Dense.Stored
import OrbitReplay.Proofs.Replay.Position
import OrbitReplay.Proofs.Replay.Propagate
import OrbitReplay.Proofs.Replay.Failures
import OrbitReplay.Proofs.Replay.Channels
import OrbitReplay.Proofs.Replay.Clones
import OrbitReplay.Proofs.Nearest.Closest
import OrbitReplay.Proofs.Nearest.Outward
import OrbitReplay.Proofs.Scalar.Rational
import OrbitReplay.Proofs.Binary64.Measure
import OrbitReplay.Proofs.Hermite.Schemes
import OrbitReplay.Proofs.Grid.Exact
import OrbitReplay.Proofs.Replay.Calls
import OrbitReplay.Proofs.Nearest.Selection
import OrbitReplay.Proofs.Grid.Readback
import OrbitReplay.Proofs.Grid.Locality
import OrbitReplay.Proofs.Replay.Rounding
import OrbitReplay.Proofs.Dense.Reversal
import OrbitReplay.Proofs.Replay.Reversal
import OrbitReplay.Proofs.Dense.Pieces
import OrbitReplay.Proofs.Replay.Transport
import OrbitReplay.Proofs.Replay.Attempts
import OrbitReplay.Proofs.Replay.Extractors
import OrbitReplay.Proofs.Hermite.Outcome
import OrbitReplay.Proofs.Hermite.Components
import OrbitReplay.Proofs.Nearest.Calls
import OrbitReplay.Proofs.State.Equality
