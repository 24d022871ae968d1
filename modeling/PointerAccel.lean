import PointerAccel.Binary.Format
import PointerAccel.Binary.Single
import PointerAccel.Binary.Decimal
import PointerAccel.Binary.Shortest
import PointerAccel.Binary.Render
import PointerAccel.Text.Trim
import PointerAccel.Text.Unexpected
import PointerAccel.Params.Mode
import PointerAccel.Params.Name
import PointerAccel.Params.Set
import PointerAccel.Params.Validate
import PointerAccel.Params.Error
import PointerAccel.Params.FloatText
import PointerAccel.Params.Surface
import PointerAccel.Params.Format
import PointerAccel.Params.Reload
import PointerAccel.Params.Json
import PointerAccel.Params.Yaml
import PointerAccel.Curves.Gain
import PointerAccel.Curves.Table
import PointerAccel.Engine.Fault
import PointerAccel.Engine.Counters
import PointerAccel.Engine.Sample
import PointerAccel.Engine.Carry
import PointerAccel.Engine.FrameTimer
import PointerAccel.Engine.Cycle
import PointerAccel.Json.Value
import PointerAccel.Json.Cursor
import PointerAccel.Json.Lex
import PointerAccel.Json.Read
import PointerAccel.Yaml.Node
import PointerAccel.Yaml.Scan
import PointerAccel.Yaml.Read
import PointerAccel.Yaml.Scalar
import PointerAccel.Cli.Similar
import PointerAccel.Cli.Grammar
import PointerAccel.Cli.Usage
import PointerAccel.Cli.Help
import PointerAccel.Cli.Diagnostic
import PointerAccel.Cli.Values
import PointerAccel.Cli.Parse
import PointerAccel.Cli.Files
import PointerAccel.Cli.Failure
import PointerAccel.Cli.Replay
import PointerAccel.Cli.Report
import PointerAccel.Cli.Run
import PointerAccel.Main
import PointerAccel.Proofs.Cycle
import PointerAccel.Proofs.Run
import PointerAccel.Proofs.Buffer
import PointerAccel.Proofs.Single.Bits
import PointerAccel.Proofs.Single.Exact
import PointerAccel.Proofs.Single.Rounding
import PointerAccel.Proofs.Carry
import PointerAccel.Proofs.Reload
import PointerAccel.Proofs.PendingRequest
import PointerAccel.Proofs.Single.Bounds
import PointerAccel.Proofs.Single.Order
import PointerAccel.Proofs.Single.Integer
import PointerAccel.Proofs.Single.Positive
import PointerAccel.Proofs.FrameTime
import PointerAccel.Proofs.Unity
import PointerAccel.Proofs.Accounting
import PointerAccel.Proofs.Decimal.Nearest
import PointerAccel.Proofs.Decimal.Shortest
import PointerAccel.Proofs.Decimal.ReadBack
import PointerAccel.Proofs.Single.Sign
import PointerAccel.Proofs.Symmetry
import PointerAccel.Proofs.AppliedReload
import PointerAccel.Proofs.FloatText
import PointerAccel.Proofs.Nearest.Shift
import PointerAccel.Proofs.Nearest.Pack
import PointerAccel.Proofs.Nearest.Round
import PointerAccel.Proofs.Merge
import PointerAccel.Proofs.Nearest.Decode
import PointerAccel.Proofs.FrameReading
import PointerAccel.Proofs.Validation
import PointerAccel.Proofs.SurfaceStore
import PointerAccel.Proofs.Nearest.Monotone
import PointerAccel.Proofs.Single.Extended
import PointerAccel.Proofs.Single.Correct
import PointerAccel.Proofs.Single.Monotone
import PointerAccel.Proofs.GainShape
import PointerAccel.Proofs.GainTable
import PointerAccel.Proofs.Representable
import PointerAccel.Proofs.FaultRate
import PointerAccel.Proofs.CarryStep
import PointerAccel.Proofs.ParamFile
