import ExplicitControl.CommandLine.Arguments
import ExplicitControl.CommandLine.FileTree
import ExplicitControl.CommandLine.Session
import ExplicitControl.Controller.Basic
import ExplicitControl.Controller.Json
import ExplicitControl.Controller.Text
import ExplicitControl.Decimal.Binary
import ExplicitControl.Decimal.Numeral
import ExplicitControl.Decimal.Shortest
import ExplicitControl.Decimal.Text
import ExplicitControl.Environment
import ExplicitControl.Error
import ExplicitControl.Evaluator.Basic
import ExplicitControl.Evaluator.Controller
import ExplicitControl.Expression
import ExplicitControl.Json.Basic
import ExplicitControl.Json.Printer
import ExplicitControl.Json.Reader
import ExplicitControl.Machine.Assembler
import ExplicitControl.Machine.Basic
import ExplicitControl.Machine.Run
import ExplicitControl.Machine.Statistics
import ExplicitControl.Main
import ExplicitControl.Memory.Basic
import ExplicitControl.Memory.Journal
import ExplicitControl.Memory.List
import ExplicitControl.Memory.Reserve
import ExplicitControl.Operation.Basic
import ExplicitControl.Operation.Call
import ExplicitControl.Operation.Primitive
import ExplicitControl.PairHeap.Basic
import ExplicitControl.PairHeap.Collector
import ExplicitControl.Pointer
import ExplicitControl.ProgramHeap
import ExplicitControl.Proofs.Collector.Compaction
import ExplicitControl.Proofs.Collector.Evacuation
import ExplicitControl.Proofs.Memory.Collection
import ExplicitControl.Proofs.Memory.Matching
import ExplicitControl.Proofs.Memory.Sound
import ExplicitControl.Proofs.Memory.Tied
import ExplicitControl.Proofs.Memory.Twin
import ExplicitControl.Proofs.Memory.Update
import ExplicitControl.Proofs.Memory.Walk
import ExplicitControl.Proofs.Operation.Frames
import ExplicitControl.Proofs.PairGraph
import ExplicitControl.Scalar
import ExplicitControl.Settings
import ExplicitControl.Text.Printable
import ExplicitControl.Text.Quoted
import ExplicitControl.Tree.Basic
import ExplicitControl.Tree.Build
import ExplicitControl.Tree.Json
import ExplicitControl.Tree.Source
import ExplicitControl.Proofs.Operation.Lockstep
import ExplicitControl.Proofs.Machine.Lockstep
import ExplicitControl.Proofs.Machine.Ready
import ExplicitControl.Proofs.Evaluator.Capacity
import ExplicitControl.Proofs.Interpreter.Evaluate
import ExplicitControl.Proofs.Program.Layout
import ExplicitControl.Proofs.Evaluator.Listing
import ExplicitControl.Proofs.Program.Reading
import ExplicitControl.Proofs.Evaluator.Config
import ExplicitControl.Proofs.Evaluator.Course
import ExplicitControl.Proofs.Evaluator.Picture
import ExplicitControl.Proofs.Evaluator.World
import ExplicitControl.Proofs.Evaluator.Construction
import ExplicitControl.Proofs.Evaluator.Scope
import ExplicitControl.Proofs.Evaluator.Arguments
import ExplicitControl.Proofs.Evaluator.Calls
import ExplicitControl.Proofs.Evaluator.Lookup
import ExplicitControl.Proofs.Evaluator.Forms
import ExplicitControl.Proofs.Evaluator.Application
import ExplicitControl.Proofs.Evaluator.Dispatch
import ExplicitControl.Proofs.Evaluator.Entrance
import ExplicitControl.Proofs.Evaluator.Moving
import ExplicitControl.Proofs.Evaluator.Refinement
import ExplicitControl.Proofs.Interpreter.Depth
import ExplicitControl.Proofs.Interpreter.Mistakes
import ExplicitControl.Proofs.Evaluator.Safety
import ExplicitControl.Proofs.Evaluator.Account
import ExplicitControl.Proofs.Evaluator.StackDiscipline
import ExplicitControl.Proofs.Memory.Resemblance
import ExplicitControl.Proofs.Operation.Steadiness
import ExplicitControl.Proofs.Machine.Isolation
import ExplicitControl.Proofs.Evaluator.Reuse
import ExplicitControl.Proofs.Evaluator.Allocation
import ExplicitControl.Proofs.Evaluator.Chronicle
import ExplicitControl.Proofs.Evaluator.Returns
import ExplicitControl.Proofs.Program.Installation
import ExplicitControl.Proofs.Memory.Reservation
import ExplicitControl.Proofs.Collector.Recovery
import ExplicitControl.Proofs.Machine.Rebinding
import ExplicitControl.Proofs.Operation.Sparing
import ExplicitControl.Proofs.Machine.Assembly
import ExplicitControl.Proofs.Evaluator.Search
import ExplicitControl.Proofs.Memory.Allotment
import ExplicitControl.Proofs.Operation.Spending
import ExplicitControl.Proofs.Operation.CallFrame
import ExplicitControl.Proofs.Evaluator.Constants
import ExplicitControl.Proofs.Collector.Canonical
import ExplicitControl.Proofs.Interpreter.Termination
import ExplicitControl.Proofs.Evaluator.Halting
import ExplicitControl.Proofs.Evaluator.Description
import ExplicitControl.Proofs.Evaluator.Miscounts
import ExplicitControl.Proofs.Collector.Bounds
import ExplicitControl.Proofs.Document.Standard
import ExplicitControl.Proofs.Document.Tree
import ExplicitControl.Proofs.Document.Controller
import ExplicitControl.Proofs.CommandLine.Registers
import ExplicitControl.Proofs.Operation.Appending
