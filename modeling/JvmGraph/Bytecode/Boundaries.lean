import JvmGraph.Bytecode.Decode
import JvmGraph.Marks

/-!
# Block boundaries

Control can arrive at the first instruction of a method, at the targets of branches, and at the
instruction after a conditional branch. These addresses cut the code into basic blocks.
-/

namespace JvmGraph

structure Instruction where
  pc : Nat
  op : Operation
  next : Nat
  deriving DecidableEq, Repr

namespace Instruction

/-- Puts the following address to each operation; after the last one comes the end of the code. -/
def ofDecoded (codeLength : Nat) (ops : List (Nat × Operation)) : List Instruction :=
  List.zipWith (fun (pc, op) next => ⟨pc, op, next⟩) ops ((ops.map Prod.fst).tail ++ [codeLength])

/-- Where a block must begin because of this instruction. -/
def marks (i : Instruction) : List Nat :=
  match i.op with
  | .branch _ _ _ target => [target, i.next]
  | .jump target => [target]
  | _ => []

end Instruction

namespace Bytecode

/-- The addresses where blocks begin, in order; each must be that of an instruction. -/
def boundaries (codeLength : Nat) (code : List Instruction) : Except Error (List Nat) := do
  let starts := code.map Instruction.pc
  let isStart := Marks.ofList codeLength starts
  code.forM fun i => i.marks.forM fun target =>
    if isStart.has target then pure () else throw (.invalidBranchTarget i.pc target)
  let marked := Marks.ofList codeLength (code.flatMap Instruction.marks)
  return 0 :: starts.filter fun pc => pc ≠ 0 && marked.has pc

def branchesToEntry (code : List Instruction) : Bool := code.any fun i => i.op.target? = some 0

end Bytecode

end JvmGraph
