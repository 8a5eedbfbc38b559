import JvmGraph.Abi.Basic
import JvmGraph.Bytecode.Operation
import JvmGraph.Frame

/-!
# Operations within a frame

The instructions that need nothing but the frame: arithmetic, comparisons, conversions, stack shuffles,
local variables and array elements. Operands are popped from the right to the left, and results are
pushed in the mode that arithmetic happens in. Whatever touches memory takes the memory state and
leaves a new one.
-/

namespace JvmGraph.Frame

def addNode (op : Op) (mode : Mode) (inputs : List NodeId) : Step NodeId :=
  build (Ssa.addNode op mode inputs)

def onGraph {α : Type} (f : Graph → α × Graph) : Step α := build (Ssa.onGraph f)

def constInt (value : Int) : Step NodeId := onGraph fun g => g.constInt value

def address (e : EntityId) : Step NodeId := onGraph fun g => g.address e

def convert (value : NodeId) (mode : Mode) : Step NodeId := do
  if (← get).modeOf value = mode then return value
  addNode .conv mode [value]

def memoryOp (op : Op) (inputs : List NodeId) : Step NodeId := do
  let memory ← build Ssa.getStore
  let node ← addNode op .tuple (memory :: inputs)
  let after ← build (Ssa.addProj node .memory Projection.memory)
  build (Ssa.setStore after)
  return node

def memoryValue (op : Op) (inputs : List NodeId) (mode : Mode) : Step NodeId := do
  let node ← memoryOp op inputs
  build (Ssa.addProj node mode Projection.result)

def load (address : NodeId) (mode : Mode) : Step NodeId := memoryValue (.load mode) [address] mode

def store (address value : NodeId) : Step Unit := do
  let _ ← memoryOp .store [address, value]

def pushLoaded (value : NodeId) (mode : Mode) : Step Unit := do
  push (← convert value mode.arithmetic)

/-! ## Constants -/

/-- The bits of a whole number as a binary floating-point number with so many fraction bits and this
exponent bias. The number must have no more binary digits than the fraction. -/
def floatBits (fraction bias n : Nat) : Nat :=
  if n = 0 then 0
  else ((n.log2 + bias) <<< fraction) + ((n <<< (fraction - n.log2)) - (1 <<< fraction))

def explicitConstant (kind : Kind) (value : Int) : Step NodeId :=
  match kind with
  | .long => onGraph fun g => g.constant .long (UInt64.ofInt value)
  | .float => onGraph fun g => g.constant .float (UInt64.ofNat (floatBits 23 127 value.toNat))
  | .double => onGraph fun g => g.constant .double (UInt64.ofNat (floatBits 52 1023 value.toNat))
  | .object => onGraph Graph.null
  | _ => constInt value

/-! ## Arithmetic -/

def arithmeticResult (mode : Mode) (op : Arithmetic) : Step NodeId := do
  match op with
  | .neg =>
    let value ← pop mode
    addNode .minus mode [value]
  | .shl => shift .shl
  | .shr => shift .shrs
  | .ushr => shift .shr
  | .div => divide .div
  | .rem => divide .mod
  | .add => binary .add
  | .sub => binary .sub
  | .mul => binary .mul
  | .and => binary .and
  | .or => binary .or
  | .xor => binary .eor
where
  binary (op : Op) : Step NodeId := do
    let right ← pop mode
    let left ← pop mode
    addNode op mode [left, right]
  shift (op : Op) : Step NodeId := do
    let count ← convert (← pop .int) .unsigned
    let value ← pop mode
    addNode op mode [value, count]
  divide (op : Op) : Step NodeId := do
    let right ← pop mode
    let left ← pop mode
    memoryValue op [left, right] mode

def arithmetic (kind : Kind) (op : Arithmetic) : Step Unit := do
  push (← arithmeticResult kind.mode op)

def threeWay : Option NanOrder → Relation × Relation
  | some .greater => ({ greater := true, unordered := true }, { less := true })
  | some .less => ({ greater := true }, { less := true, unordered := true })
  | none => ({ greater := true }, { less := true })

def compare (kind : Kind) (nans : Option NanOrder) : Step Unit := do
  let mode := kind.mode
  let right ← pop mode
  let left ← pop mode
  let (greater, less) := threeWay nans
  let greater ← addNode (.cmp greater) .bool [left, right]
  let less ← addNode (.cmp less) .bool [left, right]
  let greater ← convert greater .int
  let less ← convert less .int
  push (← addNode .sub .int [greater, less])

def relationOf : Comparison → Relation
  | .eq => { equal := true }
  | .ne => { less := true, greater := true }
  | .lt => { less := true }
  | .ge => { equal := true, greater := true }
  | .gt => { greater := true }
  | .le => { equal := true, less := true }

def condition (kind : Kind) (binary : Bool) (way : Comparison) : Step (NodeId × NodeId) := do
  let mode := kind.mode
  let last ← pop mode
  let (left, right) ←
    if binary then do
      let left ← pop mode
      pure (left, last)
    else do
      let zero ← if mode = .reference then onGraph Graph.null else constInt 0
      pure (last, zero)
  let cmp ← addNode (.cmp (relationOf way)) .bool [left, right]
  let cond ← addNode .cond .tuple [cmp]
  let taken ← build (Ssa.addProj cond .control Projection.condTrue)
  let fall ← build (Ssa.addProj cond .control Projection.condFalse)
  return (taken, fall)

/-- Narrow results are widened again, so that they are wrapped. -/
def conversion (source target : Kind) : Step Unit := do
  let value ← pop source.mode
  let value ← convert value target.mode
  pushLoaded value target.mode

/-! ## The stack and the locals -/

/-- How many slots a shuffle takes off, and which of them, counted from the top, it puts back. -/
def shufflePlan (wide : Bool) : Shuffle → Nat × List Nat
  | .pop => if wide then (2, []) else (1, [])
  | .dup => if wide then (2, [1, 0, 1, 0]) else (1, [0, 0])
  | .dupX1 => if wide then (3, [1, 0, 2, 1, 0]) else (2, [0, 1, 0])
  | .dupX2 => if wide then (4, [1, 0, 3, 2, 1, 0]) else (3, [0, 2, 1, 0])
  | .swap => (2, [0, 1])

def popSlots : Nat → Step (List NodeId)
  | 0 => return []
  | n + 1 => do
    let top ← popSlot
    return top :: (← popSlots n)

def pushSlots : List NodeId → Step Unit
  | [] => return
  | v :: rest => do
    pushSlot v
    pushSlots rest

def shuffle (wide : Bool) (how : Shuffle) : Step Unit := do
  let (count, order) := shufflePlan wide how
  let slots ← popSlots count
  pushSlots (order.filterMap fun i => slots[i]?)

def increment (index : UInt16) (value : Int) : Step Unit := do
  let old ← getLocal index .int
  let step ← constInt value
  setLocal index (← addNode .add .int [old, step])

/-! ## Arrays -/

def elementAddress (array index : NodeId) (mode : Mode) : Step NodeId := do
  let size ← constInt mode.size
  let offset ← addNode .mul .int [index, size]
  let header ← constInt Abi.arrayDataOffset
  let offset ← addNode .add .int [offset, header]
  addNode .add .reference [array, offset]

def loadArray (kind : Kind) : Step Unit := do
  let mode := kind.mode
  let index ← pop .int
  let array ← pop .reference
  let place ← elementAddress array index mode
  pushLoaded (← load place mode) mode

def storeArray (kind : Kind) : Step Unit := do
  let mode := kind.mode
  let value ← pop mode.arithmetic
  let index ← pop .int
  let array ← pop .reference
  let place ← elementAddress array index mode
  store place (← convert value mode)

end JvmGraph.Frame
