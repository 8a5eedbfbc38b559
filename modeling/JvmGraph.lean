import JvmGraph.Main
import JvmGraph.Proofs.Ssa.Termination
import JvmGraph.Proofs.Body.ControlFlow
import JvmGraph.Proofs.Compilation.Symbols
import JvmGraph.Proofs.Symbol.Demangling
import JvmGraph.Proofs.Symbol.References
import JvmGraph.Proofs.ClassFile.Numbering
import JvmGraph.Proofs.Lowering.Program
import JvmGraph.Proofs.Lowering.ArrayLayout
import JvmGraph.Proofs.Body.Depth
import JvmGraph.Proofs.Body.OperandStack
import JvmGraph.Proofs.Loading.Notes
import JvmGraph.Proofs.Loading.ObjectLayout
import JvmGraph.Proofs.Loading.Failure
import JvmGraph.Proofs.Loading.InterfaceMethods
import JvmGraph.Proofs.Compilation.Selection
import JvmGraph.Proofs.Abi.Interning
