import RegisterCode.Fault
import RegisterCode.Naming.Table
import RegisterCode.Naming.Pool
import RegisterCode.Source.Span
import RegisterCode.Source.Slice
import RegisterCode.Source.Node
import RegisterCode.Source.NodeStore
import RegisterCode.Source.Unit
import RegisterCode.Source.Rendering
import RegisterCode.Source.Builder
import RegisterCode.Code.Label
import RegisterCode.Code.Instr
import RegisterCode.Code.Listing
import RegisterCode.Scope.Chain
import RegisterCode.Lowering.Failure
import RegisterCode.Lowering.State
import RegisterCode.Lowering.Body
import RegisterCode.Compiler
import RegisterCode.Proofs.Layers
import RegisterCode.Proofs.Steps
import RegisterCode.Proofs.Tree
import RegisterCode.Proofs.Translation
import RegisterCode.Proofs.Naming
import RegisterCode.Proofs.UnitCode
import RegisterCode.Proofs.Sections
import RegisterCode.Proofs.Registers
import RegisterCode.Proofs.Acceptance
import RegisterCode.Proofs.Storage
import RegisterCode.Proofs.Semantics
import RegisterCode.Proofs.Simulation
import RegisterCode.Proofs.Alike
import RegisterCode.Proofs.Renaming
import RegisterCode.Proofs.Independence
import RegisterCode.Proofs.Linking
import RegisterCode.Proofs.Collisions
import RegisterCode.Proofs.Decoding
import RegisterCode.Proofs.Growth
import RegisterCode.Proofs.Persistence
import RegisterCode.Proofs.Building
import RegisterCode.Proofs.Aliasing
import RegisterCode.Proofs.Elision
import RegisterCode.Proofs.Shape
import RegisterCode.Proofs.Interchange
import RegisterCode.Proofs.Parentheses
import RegisterCode.Proofs.Wrapping
import RegisterCode.Proofs.RoundTrip
import RegisterCode.Proofs.ScopeStack
import RegisterCode.Proofs.Interning
import RegisterCode.Proofs.Framing
import RegisterCode.Proofs.Watching
import RegisterCode.Proofs.Shadowing
import RegisterCode.Proofs.Reporting
