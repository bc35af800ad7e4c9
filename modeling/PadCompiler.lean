import PadCompiler.Text.LetterCase
import PadCompiler.Text.Lowercase
import PadCompiler.Text.Pad
import PadCompiler.Text.Utf8
import PadCompiler.Word
import PadCompiler.Binary64
import PadCompiler.Decimal.Shortest
import PadCompiler.Decimal.Fixed
import PadCompiler.Value
import PadCompiler.Program
import PadCompiler.Demo
import PadCompiler.Instruction
import PadCompiler.Lowered
import PadCompiler.Binding
import PadCompiler.Error
import PadCompiler.Block
import PadCompiler.Verify
import PadCompiler.Image
import PadCompiler.Listing
import PadCompiler.Statistics
import PadCompiler.Scope
import PadCompiler.Generator.Basic
import PadCompiler.Generator.Expr
import PadCompiler.Generator.Stmt
import PadCompiler.Generator.Program
import PadCompiler.Wire.Basic
import PadCompiler.Wire.Program
import PadCompiler.Wire.Image
import PadCompiler.Shell.Arguments
import PadCompiler.Shell.Run
import PadCompiler.Shell.Path
import PadCompiler.Shell.Place
import PadCompiler.Shell.Disk
import PadCompiler.Main
import PadCompiler.Proofs.Layout
import PadCompiler.Proofs.Simulation
import PadCompiler.Proofs.Rewind
import PadCompiler.Proofs.Steps
import PadCompiler.Proofs.Backpatch
import PadCompiler.Proofs.Frames
import PadCompiler.Proofs.Translation
import PadCompiler.Proofs.Blocks
import PadCompiler.Proofs.Verified
import PadCompiler.Proofs.Addresses
import PadCompiler.Proofs.Meaning
import PadCompiler.Proofs.Machine
import PadCompiler.Proofs.Memory
import PadCompiler.Proofs.Evaluation
import PadCompiler.Proofs.Statements
import PadCompiler.Proofs.Control
import PadCompiler.Proofs.Preservation
import PadCompiler.Proofs.Paths
import PadCompiler.Proofs.Operands
import PadCompiler.Proofs.Places
import PadCompiler.Proofs.Shapes
import PadCompiler.Proofs.Flow
import PadCompiler.Proofs.Discipline
import PadCompiler.Proofs.WellFormed
import PadCompiler.Proofs.Acceptance
import PadCompiler.Proofs.Coding
import PadCompiler.Proofs.RoundTrip
import PadCompiler.Proofs.Canonical
import PadCompiler.Proofs.Names
import PadCompiler.Proofs.Parallel
import PadCompiler.Proofs.Separate
import PadCompiler.Proofs.Renaming
import PadCompiler.Proofs.JumpRange
import PadCompiler.Proofs.Verdicts
import PadCompiler.Proofs.Lowercase
import PadCompiler.Proofs.Piecewise
import PadCompiler.Proofs.CallSites
import PadCompiler.Proofs.CallTargets
import PadCompiler.Proofs.Numbers
import PadCompiler.Proofs.Unambiguous
import PadCompiler.Proofs.Depths
import PadCompiler.Proofs.Allocation
import PadCompiler.Proofs.Hints
import PadCompiler.Proofs.FrameSizes
import PadCompiler.Proofs.Diagnostics
import PadCompiler.Proofs.Buffers
import PadCompiler.Proofs.ScopeEffects
import PadCompiler.Proofs.LoopHeaders
import PadCompiler.Proofs.CommandLine
import PadCompiler.Proofs.InputBounds
import PadCompiler.Proofs.Marks
import PadCompiler.Proofs.Reservations
import PadCompiler.Proofs.ElementSlots
