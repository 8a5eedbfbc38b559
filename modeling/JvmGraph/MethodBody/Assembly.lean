import JvmGraph.Bytecode.Boundaries
import JvmGraph.Graph.Normalize
import JvmGraph.Graph.Reachability
import JvmGraph.MethodBody.Objects

/-!
# Graphs of methods

The code of a method is gone through once, in the order of addresses. Instructions that nothing leads
to are passed over. In the end the blocks that cannot be reached are dropped from the graph.
-/

namespace JvmGraph

open Load

namespace Body

def step (ctx : MethodContext) (i : Instruction) : Body Unit :=
  match i.op with
  | .noop => return
  | .constant kind value => onFrame do Frame.push (← Frame.explicitConstant kind value)
  | .loadConstant index => do
    let value ← pooledConstant ctx index
    onFrame (Frame.push value)
  | .loadLocal kind index => onFrame do Frame.push (← Frame.getLocal index kind.mode)
  | .storeLocal kind index => onFrame do Frame.setLocal index (← Frame.pop kind.mode)
  | .loadArray kind => onFrame (Frame.loadArray kind)
  | .storeArray kind => onFrame (Frame.storeArray kind)
  | .shuffle wide how => onFrame (Frame.shuffle wide how)
  | .arithmetic kind op => onFrame (Frame.arithmetic kind op)
  | .increment index value => onFrame (Frame.increment index value)
  | .convert source target => onFrame (Frame.conversion source target)
  | .compare kind nans => onFrame (Frame.compare kind nans)
  | .branch kind binary way target => branch kind binary way target i.next
  | .jump target => jump target
  | .yield kind => yield kind ctx.result?
  | .getStatic index => getStatic ctx index
  | .putStatic index => putStatic ctx index
  | .getField index => getField ctx index
  | .putField index => putField ctx index
  | .invoke form index => invoke ctx form index
  | .new index => newObject ctx index
  | .newArray element dimensions => newArray ctx element dimensions
  | .arrayLength => onFrame arrayLength
  | .throw => throwObject
  | .checkCast index => checkCast ctx index
  | .instanceOf index => instanceOf ctx index
  | .monitor => onFrame do let _ ← Frame.pop .reference
  | .uncompiled u => refuse (.instruction u.text)

def visit (ctx : MethodContext) (i : Instruction) : Body Unit := do
  onFrame (modify fun f => { f with pc := i.pc })
  match ← blockAt? i.pc with
  | some b => enterBlock b
  | none => pure ()
  if (← get).frame.builder.current?.isSome then step ctx i

def visitAll (ctx : MethodContext) : List Instruction → Body Unit
  | [] => return
  | i :: rest => do
    visit ctx i
    visitAll ctx rest

/-- Makes the blocks for these addresses. The first one is the start block of the graph, unless the code
branches back to it. -/
def makeBlocks (targetedEntry : Bool) : List Nat → Body Unit
  | [] => return
  | pc :: rest => do
    let block ←
      if pc = 0 ∧ ¬ targetedEntry then pure Graph.startBlock
      else onFrame (Frame.build Ssa.newBlock)
    onFrame (Frame.build (Ssa.modifyGraph fun g => g.setBlock block { g.block block with pc? := some pc }))
    let depth? := if pc = 0 then some 0 else none
    setBlock { pc, block, depth? }
    makeBlocks targetedEntry rest

def storeArgs : (n : Nat) → (slot : UInt16) → List Mode → Body Unit
  | _, _, [] => return
  | n, slot, mode :: rest => do
    onFrame do
      let arg ← Frame.onGraph fun g => g.arg n mode
      Frame.setLocal slot (← Frame.convert arg mode.arithmetic)
    storeArgs (n + 1) (slot + if mode.isTwoSlot then 2 else 1) rest

def matureAll : List BlockId → Body Unit
  | [] => return
  | b :: rest => do
    onFrame (Frame.build (Ssa.mature b))
    matureAll rest

def whole (ctx : MethodContext) (m : Method) (code : List Instruction) (codeLength : Nat)
    (boundaries : List Nat) : Body Unit := do
  let targetedEntry := Bytecode.branchesToEntry code
  makeBlocks targetedEntry boundaries
  storeArgs 0 0 m.paramModes
  if m.isStatic then initClass ctx.owner
  if targetedEntry then
    let edge ← onFrame (Frame.addNode .jmp .control [])
    match ← blockAt? 0 with
    | some entry => onFrame (Frame.build (Ssa.addPred entry.block edge))
    | none => pure ()
  visitAll ctx code
  if (← get).frame.builder.current?.isSome then throw (.unsupported codeLength .fallsOffTheEnd)
  matureAll ((← get).blocks.toList.filterMap fun b? => b?.map BasicBlock.block)
  matureAll [Graph.endBlock]

end Body

def Graph.tidy (g : Graph) : Graph := g.removeUnreachable.2.normalize

def runBody (frame : Frame) (codeLength : Nat) (x : Body Unit) : Load Graph := fun world =>
  match x { world, frame, blocks := Array.replicate codeLength none, initialized := [] } with
  | .ok _ t => .ok t.frame.graph.tidy t.world
  | .error e t => .error e t.world

def methodGraph (source : ClassSource) (c : ClassId) (file : ClassFile) (member : Member)
    (e : EntityId) : Load Graph := do
  let entity := (← get).program.entityAt e
  match entity.method? with
  | none => throw (.unexpectedConstant member.nameIndex .method)
  | some m =>
    match member.code? with
    | none => throw (.missingCode entity.symbol)
    | some code =>
      let ops ← pureStep (Bytecode.decode code.bytes)
      let instructions := Instruction.ofDecoded code.bytes.length ops
      let boundaries ← pureStep (Bytecode.boundaries code.bytes.length instructions)
      let ctx : MethodContext := { source, owner := c, file, result? := m.resultMode? }
      runBody (.new entity.symbol code.maxStack code.maxLocals) code.bytes.length
        (Body.whole ctx m instructions code.bytes.length boundaries)

def constructMethods (source : ClassSource) (c : ClassId) (file : ClassFile) :
    List (Member × EntityId) → Load Unit
  | [] => return
  | (member, e) :: rest => do
    if !member.flags.isAbstract && !member.flags.isNative then
      let graph ← methodGraph source c file member e
      modifyProgram fun p => p.modifyMethod e fun m => { m with graph? := some graph }
    constructMethods source c file rest

/-- Compiles the methods of an emitted class, once. Its methods became members before any stand-in
did, in the order of the class file. -/
def constructClass (source : ClassSource) (c : ClassId) : Load Unit := do
  let p := (← get).program
  let info := p.classAt c
  if info.isExtern || info.constructed then return
  let file ← classFileOf c
  let entities := info.members.filter fun e => (p.methodAt? e).isSome
  constructMethods source c file (file.methods.zip entities)
  modifyClass c fun info => { info with constructed := true }

end JvmGraph
