import JvmGraph.Resolution
import JvmGraph.MethodBody.Compute

/-!
# State of a method body

While the code of a method is gone through, the frame grows its graph, and references to other classes
may load and finalize them. Every edge into a block must agree on the depth of the operand stack.
-/

namespace JvmGraph

open Load

structure BasicBlock where
  pc : Nat
  block : BlockId
  /-- The depth of the operand stack at its beginning, once that is known. -/
  depth? : Option Nat
  deriving DecidableEq, Repr

structure BodyState where
  world : World
  frame : Frame
  /-- The block that begins at each address of the code, if one does. -/
  blocks : Array (Option BasicBlock)
  /-- Classes that were initialised in the current block. -/
  initialized : List ClassId
  deriving Inhabited

structure MethodContext where
  source : ClassSource
  owner : ClassId
  /-- The class file of its owner. -/
  file : ClassFile
  result? : Option Mode

/-- Steps through a method body. What a step did stays done if it fails. -/
abbrev Body := EStateM Error BodyState

namespace Body

def onFrame {α : Type} (x : Frame.Step α) : Body α := fun ⟨world, frame, blocks, initialized⟩ =>
  match x frame with
  | .ok a frame => .ok a ⟨world, frame, blocks, initialized⟩
  | .error e frame => .error e ⟨world, frame, blocks, initialized⟩

def onWorld {α : Type} (x : Load α) : Body α := fun ⟨world, frame, blocks, initialized⟩ =>
  match x world with
  | .ok a world => .ok a ⟨world, frame, blocks, initialized⟩
  | .error e world => .error e ⟨world, frame, blocks, initialized⟩

def refuse {α : Type} (what : Unsupported) : Body α := do
  throw (.unsupported (← get).frame.pc what)

/-! ## Blocks -/

def setBlock (b : BasicBlock) : Body Unit :=
  modify fun t => { t with blocks := t.blocks.setIfInBounds b.pc (some b) }

def agreeOnDepth (b : BasicBlock) : Body Unit := do
  let depth := (← get).frame.depth
  match b.depth? with
  | none => setBlock { b with depth? := some depth }
  | some d => if d ≠ depth then throw (.stackPointerMismatch b.pc)

def blockAt? (pc : Nat) : Body (Option BasicBlock) := do
  return (← get).blocks.getD pc none

def branchTo (target : Nat) (edge : NodeId) : Body Unit := do
  match ← blockAt? target with
  | none => throw (.invalidBranchTarget (← get).frame.pc target)
  | some b =>
    agreeOnDepth b
    onFrame (Frame.build (Ssa.addPred b.block edge))

def endBlock : Body Unit := onFrame (Frame.build (Ssa.setCurrent none))

def enterBlock (b : BasicBlock) : Body Unit := do
  let t ← get
  match t.frame.builder.current? with
  | some current =>
    agreeOnDepth b
    if current ≠ b.block then
      let jump ← onFrame (Frame.addNode .jmp .control [])
      onFrame (Frame.build (Ssa.addPred b.block jump))
  | none =>
    match b.depth? with
    | some d => onFrame (modify fun f => { f with depth := d })
    -- nothing has led here so far, so the depth is taken to be the one at hand
    | none => setBlock { b with depth? := some t.frame.depth }
  onFrame (Frame.build (Ssa.setCurrent (some b.block)))
  modify fun t => { t with initialized := [] }

def branch (kind : Kind) (binary : Bool) (way : Comparison) (target next : Nat) : Body Unit := do
  let (taken, fall) ← onFrame (Frame.condition kind binary way)
  branchTo target taken
  branchTo next fall
  endBlock

def jump (target : Nat) : Body Unit := do
  let edge ← onFrame (Frame.addNode .jmp .control [])
  branchTo target edge
  endBlock

def yield (kind : Kind) (result? : Option Mode) : Body Unit := do
  let memory ← onFrame (Frame.build Ssa.getStore)
  let value ←
    if kind = .void then pure []
    else match result? with
      | none => refuse .valueFromVoid
      | some mode => do
        let value ← onFrame (Frame.pop mode.arithmetic)
        pure [← onFrame (Frame.convert value mode)]
  let edge ← onFrame (Frame.addNode .ret .control (memory :: value))
  onFrame (Frame.build (Ssa.addPred Graph.endBlock edge))
  endBlock

/-! ## Calls -/

def callRuntime (f : RuntimeFunction) (args : List NodeId) : Body NodeId := do
  let e ← onWorld (onImage fun im => im.function f)
  let callee ← onFrame (Frame.address e)
  onFrame (Frame.memoryOp .call (callee :: args))

def callRuntimeValue (f : RuntimeFunction) (args : List NodeId) (mode : Mode) : Body NodeId := do
  let call ← callRuntime f args
  onFrame (Frame.build (Ssa.addProj call mode Projection.result))

def initClass (c : ClassId) : Body Unit := do
  match ((← get).world.classAt c).classObject? with
  | none => return
  | some classObject =>
    let place ← onFrame (Frame.address classObject)
    let _ ← callRuntime .initClass [place]

/-- Makes sure that a class is initialised before it is used. The class of the method needs nothing, and
others are initialised once in a block. -/
def requireInit (ctx : MethodContext) (c : ClassId) : Body Unit := do
  if c = ctx.owner ∨ c ∈ (← get).initialized then return
  modify fun t => { t with initialized := c :: t.initialized }
  initClass c

def requireInitOf (ctx : MethodContext) (e : EntityId) : Body Unit := do
  match ((← get).world.program.entityAt e).owner? with
  | some c => requireInit ctx c
  | none => return

end Body

end JvmGraph
