import JvmGraph.Ssa

/-!
# Frames

The operand stack and the local variables of a method while its code is gone through. Stack slot `i`
and local `n` are the builder's variables `i` and `maxStack + n`, so that values pass between blocks
like those of any variable. A `long` or `double` takes two slots: on the stack a placeholder below its
value, among the locals a placeholder above it.
-/

namespace JvmGraph

structure Frame where
  builder : Ssa.Builder
  maxStack : UInt16
  maxLocals : UInt16
  /-- Stack slots in use. -/
  depth : Nat
  /-- The address that faults are reported at. -/
  pc : Nat
  deriving Inhabited

namespace Frame

def new (name : String) (maxStack maxLocals : UInt16) : Frame where
  builder := .new name (maxStack.toNat + maxLocals.toNat)
  maxStack
  maxLocals
  depth := 0
  pc := 0

def graph (f : Frame) : Graph := f.builder.graph

def modeOf (f : Frame) (n : NodeId) : Mode := (f.graph.node n).mode

abbrev Step := EStateM Error Frame

def build {α : Type} (x : Ssa.Build α) : Step α := fun ⟨builder, maxStack, maxLocals, depth, pc⟩ =>
  match x builder with
  | .ok a builder => .ok a ⟨builder, maxStack, maxLocals, depth, pc⟩
  | .error e builder => .error e ⟨builder, maxStack, maxLocals, depth, pc⟩

def reserve (n : Nat) : Step Nat := do
  let f ← get
  if f.maxStack.toNat < f.depth + n then throw (.stackOverflow f.pc)
  set { f with depth := f.depth + n }
  return f.depth

/-- Gives the uppermost slot free; gives its number. -/
def release : Step Nat := do
  let f ← get
  match f.depth with
  | 0 => throw (.stackUnderflow f.pc)
  | d + 1 =>
    set { f with depth := d }
    return d

def push (value : NodeId) : Step Unit := do
  let mode := (← get).modeOf value
  if mode.isTwoSlot then
    let low ← reserve 2
    let placeholder ← build (Ssa.onGraph fun g => g.bad mode)
    build (Ssa.setValue low placeholder)
    build (Ssa.setValue (low + 1) value)
  else
    let low ← reserve 1
    build (Ssa.setValue low value)

/-- Whether a node may be the placeholder of a two-slot value. A Phi may stand for one that shows only
when its block matures. -/
def isPlaceholder (f : Frame) (n : NodeId) : Bool :=
  let op := (f.graph.node (f.graph.resolve n)).op
  op = .bad || op = .phi

def pop (mode : Mode) : Step NodeId := do
  let top ← release
  let value ← build (Ssa.getValue top mode)
  if mode.isTwoSlot then
    let below ← release
    let placeholder ← build (Ssa.getValue below mode)
    let f ← get
    if !f.isPlaceholder placeholder then throw (.slotArity f.pc)
  else
    let f ← get
    if f.graph.isBad value then throw (.slotArity f.pc)
  return value

def popSlot : Step NodeId := do
  let top ← release
  let f ← get
  match f.builder.guessMode top with
  | some mode => build (Ssa.getValue top mode)
  | none => throw (.unsupported f.pc .unknownSlot)

def pushSlot (value : NodeId) : Step Unit := do
  let low ← reserve 1
  build (Ssa.setValue low value)

def localVar (index : UInt16) (mode : Mode) : Step Ssa.Var := do
  let f ← get
  let width := if mode.isTwoSlot then 2 else 1
  if f.maxLocals.toNat < index.toNat + width then throw (.localOutOfRange f.pc index)
  return f.maxStack.toNat + index.toNat

def getLocal (index : UInt16) (mode : Mode) : Step NodeId := do
  let x ← localVar index mode
  build (Ssa.getValue x mode)

def setLocal (index : UInt16) (value : NodeId) : Step Unit := do
  let mode := (← get).modeOf value
  let x ← localVar index mode
  build (Ssa.setValue x value)
  if mode.isTwoSlot then
    let placeholder ← build (Ssa.onGraph fun g => g.bad mode)
    build (Ssa.setValue (x + 1) placeholder)

end Frame

end JvmGraph
