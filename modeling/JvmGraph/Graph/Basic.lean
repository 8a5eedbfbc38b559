import JvmGraph.TypeRef

/-!
# Value graphs

A graph has nodes and blocks, both numbered in the order of their creation. Every node lies in one
block. Control flow is held by the predecessor list of each block, whose entries are control nodes of
other blocks: a jump, a projection of a condition, or a return for the end block. A node with several
results has mode `tuple`, and projections take it apart.

A node that was replaced stays behind as a forwarding node; `resolve` follows such nodes.
-/

namespace JvmGraph

structure NodeId where
  index : Nat
  deriving DecidableEq, Repr, Inhabited

structure BlockId where
  index : Nat
  deriving DecidableEq, Repr, Inhabited

/-- Which outcomes of a comparison make it true. -/
structure Relation where
  equal : Bool := false
  less : Bool := false
  greater : Bool := false
  unordered : Bool := false
  deriving DecidableEq, Repr

namespace Relation

/-- The relation with these bits, from equal as the lowest to unordered; there are no others. -/
def ofBits? (n : Nat) : Option Relation :=
  if n < 16 then some ⟨n.testBit 0, n.testBit 1, n.testBit 2, n.testBit 3⟩ else none

def text (r : Relation) : String :=
  (if r.unordered then "u" else "") ++ (if r.less then "<" else "")
    ++ (if r.greater then ">" else "") ++ (if r.equal then "=" else "")

end Relation

inductive Op where
  | start
  | proj (number : Nat)
  /-- Raw bits; the mode of the node says what they mean. -/
  | const (bits : UInt64)
  | address (entity : EntityId)
  /-- A value read from a variable that nothing was written to. -/
  | unknown
  /-- Placeholder for one half of a two-slot value. -/
  | bad
  /-- Stands for its only input. -/
  | forward
  | add | sub | mul | minus | and | or | eor | shl | shr | shrs
  /-- Inputs: memory, left, right. -/
  | div
  /-- Inputs: memory, left, right. -/
  | mod
  | conv
  | cmp (relation : Relation)
  | cond
  | jmp
  /-- Inputs: memory, then the value if there is one. -/
  | ret
  | phi
  /-- Inputs: memory, address. -/
  | load (mode : Mode)
  /-- Inputs: memory, address, value. -/
  | store
  /-- Address of a field within the object given as input. -/
  | sel (field : EntityId)
  /-- Inputs: memory, address of the callee, arguments. -/
  | call
  /-- Address of the code that a dynamically bound method has for a receiver. Inputs: memory,
  receiver. -/
  | methodSel (method : EntityId)
  /-- Inputs: memory, number of elements. -/
  | alloc (type : TypeRef)
  /-- Inputs: memory, array. -/
  | arrayLength
  /-- Inputs: memory, object. -/
  | instanceOf (type : TypeRef)
  deriving DecidableEq, Repr, Inhabited

structure Node where
  op : Op
  mode : Mode
  block : BlockId
  inputs : List NodeId
  deriving DecidableEq, Repr, Inhabited

structure Block where
  /-- Control nodes that lead here. -/
  preds : List NodeId := []
  /-- The address of the code that the block begins with, if it stands for some. -/
  pc? : Option Nat := none
  dead : Bool := false
  deriving DecidableEq, Repr, Inhabited

inductive Merge where
  | nothing
  | single (value : NodeId)
  | several
  deriving DecidableEq, Repr

structure Graph where
  name : String
  nodes : Array Node
  blocks : Array Block
  /-- Nodes that are needed although nothing uses them. -/
  keepAlives : List NodeId
  /-- The placeholders, one for each mode. -/
  bads : List (Mode × NodeId)
  deriving Inhabited

/-! ## Numbers of projections -/
namespace Projection

def memory : Nat := 0
def result : Nat := 1
/-- The first argument of a graph is this projection of its start, and the others follow. -/
def argument : Nat := 1
def condFalse : Nat := 0
def condTrue : Nat := 1

end Projection

namespace Graph

def startBlock : BlockId := ⟨0⟩
def endBlock : BlockId := ⟨1⟩
def start : NodeId := ⟨0⟩

def empty (name : String) : Graph where
  name
  nodes := #[⟨.start, .tuple, startBlock, []⟩]
  blocks := #[{}, {}]
  keepAlives := []
  bads := []

def node (g : Graph) (n : NodeId) : Node := g.nodes.getD n.index ⟨.bad, .tuple, startBlock, []⟩

def block (g : Graph) (b : BlockId) : Block := g.blocks.getD b.index {}

def setNode (g : Graph) (n : NodeId) (node : Node) : Graph :=
  { g with nodes := g.nodes.setIfInBounds n.index node }

def setBlock (g : Graph) (b : BlockId) (block : Block) : Graph :=
  { g with blocks := g.blocks.setIfInBounds b.index block }

def nodeIds (g : Graph) : List NodeId := (List.range g.nodes.size).map NodeId.mk

def blockIds (g : Graph) : List BlockId := (List.range g.blocks.size).map BlockId.mk

def edgeCount (g : Graph) : Nat := g.blocks.foldl (fun n b => n + b.preds.length) 0

def newBlock (g : Graph) : BlockId × Graph :=
  (⟨g.blocks.size⟩, { g with blocks := g.blocks.push {} })

def add (g : Graph) (block : BlockId) (op : Op) (mode : Mode) (inputs : List NodeId) :
    NodeId × Graph :=
  (⟨g.nodes.size⟩, { g with nodes := g.nodes.push ⟨op, mode, block, inputs⟩ })

def proj (g : Graph) (tuple : NodeId) (mode : Mode) (number : Nat) : NodeId × Graph :=
  g.add (g.node tuple).block (.proj number) mode [tuple]

def initialMemory (g : Graph) : NodeId × Graph := g.proj start .memory Projection.memory

def arg (g : Graph) (n : Nat) (mode : Mode) : NodeId × Graph :=
  g.proj start mode (Projection.argument + n)

def constant (g : Graph) (mode : Mode) (bits : UInt64) : NodeId × Graph :=
  g.add startBlock (.const bits) mode []

def constInt (g : Graph) (value : Int) : NodeId × Graph :=
  g.constant .int (UInt32.ofInt value).toUInt64

def null (g : Graph) : NodeId × Graph := g.constant .reference 0

def address (g : Graph) (entity : EntityId) : NodeId × Graph :=
  g.add startBlock (.address entity) .reference []

def bad (g : Graph) (mode : Mode) : NodeId × Graph :=
  match g.bads.lookup mode with
  | some n => (n, g)
  | none =>
    let (n, g) := g.add startBlock .bad mode []
    (n, { g with bads := (mode, n) :: g.bads })

def addPred (g : Graph) (b : BlockId) (pred : NodeId) : Graph :=
  let block := g.block b
  g.setBlock b { block with preds := block.preds ++ [pred] }

def keepAlive (g : Graph) (n : NodeId) : Graph := { g with keepAlives := g.keepAlives ++ [n] }

def follow (g : Graph) : Nat → NodeId → NodeId
  | 0, n => n
  | fuel + 1, n =>
    match g.node n with
    | ⟨.forward, _, _, m :: _⟩ => follow g fuel m
    | _ => n

/-- The node that `n` stands for. Unless forwarding nodes form a circle, no more of them can follow
each other than there are nodes. -/
def resolve (g : Graph) (n : NodeId) : NodeId := g.follow g.nodes.size n

def isBad (g : Graph) (n : NodeId) : Bool := (g.node (g.resolve n)).op = .bad

def predBlock (g : Graph) (pred : NodeId) : BlockId := (g.node (g.resolve pred)).block

def exchange (g : Graph) (old new : NodeId) : Graph :=
  if old = new then g
  else g.setNode old { g.node old with op := .forward, inputs := [new] }

def mergeOf (g : Graph) (phi : NodeId) (met? : Option NodeId) : (inputs : List NodeId) → Merge
  | [] => met?.elim .nothing .single
  | n :: rest =>
    let value := g.resolve n
    if value = phi then g.mergeOf phi met? rest
    else match met? with
      | none => g.mergeOf phi (some value) rest
      | some met => if value = met then g.mergeOf phi met? rest else .several

def merge (g : Graph) (phi : NodeId) : Merge := g.mergeOf phi none (g.node phi).inputs

def isLive (g : Graph) (n : NodeId) : Bool :=
  (g.node n).op ≠ .forward && !(g.block (g.node n).block).dead

def liveNodes (g : Graph) : List NodeId := g.nodeIds.filter g.isLive

end Graph

end JvmGraph
