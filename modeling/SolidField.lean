import SolidField.Attempt
import SolidField.Device.Basic
import SolidField.Device.Integrals
import SolidField.Device.Lattice
import SolidField.Executor.Interleave
import SolidField.Executor.Routine
import SolidField.Geometry.Aabb
import SolidField.Geometry.Rotation
import SolidField.Geometry.Similarity
import SolidField.Geometry.Text
import SolidField.Geometry.Vector
import SolidField.Graph.Basic
import SolidField.Graph.Node
import SolidField.Graph.Value
import SolidField.Json.Geometry
import SolidField.Json.Parser
import SolidField.Json.Reader
import SolidField.Json.Settings
import SolidField.Json.Shape
import SolidField.Json.Value
import SolidField.Kernel.Boolean
import SolidField.Kernel.Evaluate
import SolidField.Kernel.Mapping
import SolidField.Kernel.Polygon
import SolidField.Kernel.Primitive
import SolidField.Mass
import SolidField.Numeric.Angle
import SolidField.Numeric.Decimal
import SolidField.Numeric.Rounding
import SolidField.Numeric.Scalar
import SolidField.Numeric.Single
import SolidField.Opcode
import SolidField.Program.Basic
import SolidField.Program.Compile
import SolidField.Program.Grammar
import SolidField.Program.Instruction
import SolidField.Program.Listing
import SolidField.Program.Liveness
import SolidField.Program.Machine
import SolidField.Program.Shader
import SolidField.Program.Walk
import SolidField.Proofs.Graph.Construction
import SolidField.Proofs.Graph.Evaluation
import SolidField.Proofs.Graph.Folding
import SolidField.Proofs.Json.Shape
import SolidField.Proofs.Mass.Account
import SolidField.Proofs.Program.Budget
import SolidField.Proofs.Program.Compilation
import SolidField.Proofs.Program.Decoding
import SolidField.Proofs.Program.Entries
import SolidField.Proofs.Program.Execution
import SolidField.Proofs.Program.Liveness
import SolidField.Proofs.Program.RoundTrip
import SolidField.Proofs.Program.Simulation
import SolidField.Proofs.Program.Walk
import SolidField.Proofs.Schedule.Completion
import SolidField.Proofs.Schedule.History
import SolidField.Proofs.Schedule.Optimum
import SolidField.Proofs.Schedule.Placement
import SolidField.Proofs.Schedule.Progress
import SolidField.Proofs.Schedule.Uses
import SolidField.Proofs.Schedule.Values
import SolidField.Proofs.Schedule.Visit
import SolidField.Proofs.Shape.Carried
import SolidField.Proofs.Shape.Lowering
import SolidField.Proofs.Schedule.Live
import SolidField.Proofs.Shape.Payload
import SolidField.Schedule.Allocator
import SolidField.Schedule.Order
import SolidField.Schedule.Search
import SolidField.Schedule.Trial
import SolidField.Shape.Basic
import SolidField.Shape.Bounds
import SolidField.Shape.Build
import SolidField.Shape.Equal
import SolidField.Shape.Field
import SolidField.Shape.Lowering
import SolidField.Subdivision.Block
import SolidField.Subdivision.Config
import SolidField.Subdivision.Lane
import SolidField.Subdivision.Level
import SolidField.Subdivision.Plan
import SolidField.Subdivision.Run
import SolidField.Subdivision.Search
import SolidField.Executor.Protocol
import SolidField.Executor.Trace
import SolidField.Executor.Script
import SolidField.Executor.Life
import SolidField.Proofs.Executor.Turn
import SolidField.Proofs.Executor.Account
import SolidField.Proofs.Executor.Failures
import SolidField.Proofs.Executor.Logging
import SolidField.Proofs.Executor.Utilization
import SolidField.Proofs.Executor.Lockstep
import SolidField.Proofs.Executor.Outstanding
import SolidField.Graph.Expression
import SolidField.Graph.Index
import SolidField.Proofs.Graph.Expression
import SolidField.Proofs.Graph.Sharing
import SolidField.Proofs.Subdivision.Levels
import SolidField.Subdivision.Hierarchy
import SolidField.Proofs.Subdivision.Words
import SolidField.Proofs.Subdivision.Hierarchy
import SolidField.Proofs.Subdivision.Ordering
import SolidField.Proofs.Subdivision.Grid
import SolidField.Proofs.Subdivision.Cells
import SolidField.Proofs.Subdivision.Run
import SolidField.Proofs.Subdivision.Tiling
import SolidField.Proofs.Device.Distances
import SolidField.Proofs.Numeric.NotANumber
import SolidField.Proofs.Subdivision.Search
import SolidField.Proofs.Subdivision.Discards
import SolidField.Proofs.Program.Noninterference
import SolidField.Proofs.Shape.Composite
import SolidField.Proofs.Shape.Merging
import SolidField.Proofs.Shape.Bounds
import SolidField.Proofs.Kernel.Fillet
import SolidField.Proofs.Kernel.Selection
import SolidField.Proofs.Program.Width
import SolidField.Proofs.Program.Truncation
import SolidField.Proofs.Shape.NormalForm
import SolidField.Proofs.Device.Packing
import SolidField.Proofs.Device.Reports
import SolidField.Proofs.Device.Admission
import SolidField.Proofs.Device.Layout
import SolidField.Proofs.Shape.Homogeneous
import SolidField.Proofs.Shape.Repetition
import SolidField.Proofs.Shape.Refusal
import SolidField.Proofs.Geometry.Inverse
import SolidField.Program.Session
import SolidField.Proofs.Program.Registers
import SolidField.Proofs.Program.Completed
import SolidField.Proofs.Program.Session
import SolidField.Mass.Cubes
import SolidField.Proofs.Mass.Inertia
import SolidField.Proofs.Kernel.Outline
import SolidField.Proofs.Kernel.Winding
import SolidField.Proofs.Numeric.Squares
import SolidField.Proofs.Kernel.FirstVertex
import SolidField.Proofs.Schedule.Peak
import SolidField.Proofs.Geometry.Points
import SolidField.Proofs.Schedule.Shuffles
import SolidField.Proofs.Schedule.Streams
