import JvmGraph.Error
import JvmGraph.Graph.Basic
import JvmGraph.Marks

/-!
# Building graphs over variables

A builder turns reads and writes of numbered variables into a graph in which every value has one
definition. Each block remembers the last definition of a variable made in it. A read that finds none
asks the predecessors, and puts a Phi where several of them meet. While predecessors may still be
added to a block it is immature: a read then gets a Phi without operands, which is completed when the
block matures. A Phi that turns out to merge a single value is replaced by that value.
-/

namespace JvmGraph.Ssa

/-- The variables of a frame by number; the one after the last holds the memory state. -/
abbrev Var := Nat

structure BlockState where
  /-- The last definition of each variable that has any, by its number. -/
  definitions : Array (Option NodeId)
  matured : Bool := false
  /-- Phis that wait for their operands, the last one first. -/
  incomplete : List (Var × NodeId) := []
  deriving Inhabited

namespace BlockState

def empty (varCount : Nat) : BlockState := { definitions := Array.replicate varCount none }

def define (b : BlockState) (x : Var) (v : NodeId) : BlockState :=
  { b with definitions := b.definitions.setIfInBounds x (some v) }

def addIncomplete (b : BlockState) (x : Var) (phi : NodeId) : BlockState :=
  { b with incomplete := (x, phi) :: b.incomplete }

end BlockState

structure Builder where
  graph : Graph
  /-- Number of data variables. -/
  varCount : Nat
  /-- One state for each block of the graph. -/
  states : Array BlockState
  /-- Where nodes are added; absent in code that nothing leads to. -/
  current? : Option BlockId
  deriving Inhabited

namespace Builder

def new (name : String) (varCount : Nat) : Builder :=
  let (memory, graph) := (Graph.empty name).initialMemory
  let fresh := BlockState.empty (varCount + 1)
  { graph, varCount
    states := #[{ fresh.define varCount memory with matured := true }, fresh]
    current? := some Graph.startBlock }

def memoryVar (s : Builder) : Var := s.varCount

def current (s : Builder) : BlockId := s.current?.getD Graph.startBlock

def state (s : Builder) (b : BlockId) : BlockState := s.states.getD b.index (.empty 0)

def isMatured (s : Builder) (b : BlockId) : Bool := (s.state b).matured

def definition? (s : Builder) (b : BlockId) (x : Var) : Option NodeId :=
  (s.state b).definitions.getD x none

def modifyState (s : Builder) (b : BlockId) (f : BlockState → BlockState) : Builder :=
  { s with states := s.states.modify b.index f }

def define (s : Builder) (b : BlockId) (x : Var) (v : NodeId) : Builder :=
  s.modifyState b fun state => state.define x v

def definedMode? (s : Builder) (b : BlockId) (x : Var) : Option Mode :=
  (s.definition? b x).map fun v => (s.graph.node (s.graph.resolve v)).mode

/-- Searches blocks for a definition of `x`, the last predecessor of a block first, and gives the mode
of the first one found. `seen` holds the blocks that were searched. -/
def searchMode (s : Builder) (x : Var) :
    (fuel : Nat) → (seen : Marks) → (work : List BlockId) → Option Mode
  | 0, _, _ => none
  | _ + 1, _, [] => none
  | fuel + 1, seen, b :: work =>
    if seen.has b.index then s.searchMode x fuel seen work
    else match s.definedMode? b x with
      | some mode => some mode
      | none =>
        s.searchMode x fuel (seen.insert b.index)
          ((s.graph.block b).preds.reverse.map s.graph.predBlock ++ work)

/-- The mode of what `x` holds in the current block, as far as definitions can be found. Every edge puts
a block on the work list at most once, so the number of edges bounds the search. -/
def guessMode (s : Builder) (x : Var) : Option Mode :=
  match s.definedMode? s.current x with
  | some mode => some mode
  | none => s.searchMode x (s.graph.edgeCount + 1) (.empty s.graph.blocks.size) [s.current]

end Builder

/-- Steps of a builder. What a step did stays done if it fails. -/
abbrev Build := EStateM Error Builder

def onGraph {α : Type} (f : Graph → α × Graph) : Build α := fun ⟨graph, varCount, states, current?⟩ =>
  let (a, graph) := f graph
  .ok a ⟨graph, varCount, states, current?⟩

def modifyGraph (f : Graph → Graph) : Build Unit := onGraph fun g => ((), f g)

def newBlock : Build BlockId := do
  let b ← onGraph Graph.newBlock
  modify fun s => { s with states := s.states.push (.empty (s.varCount + 1)) }
  return b

def addNode (op : Op) (mode : Mode) (inputs : List NodeId) : Build NodeId := do
  let b := (← get).current
  onGraph fun g => g.add b op mode inputs

def addProj (tuple : NodeId) (mode : Mode) (number : Nat) : Build NodeId :=
  onGraph fun g => g.proj tuple mode number

def setCurrent (b? : Option BlockId) : Build Unit := modify fun s => { s with current? := b? }

def addPred (b : BlockId) (pred : NodeId) : Build Unit := modifyGraph fun g => g.addPred b pred

def setValue (x : Var) (v : NodeId) : Build Unit := modify fun s => s.define s.current x v

/-- Replaces a Phi that has its operands if it merges a single value, and gives what stands for it. A
Phi without any operand but itself has no value. -/
def removeTrivialPhi (phi : NodeId) : Build NodeId := do
  let g := (← get).graph
  match g.merge phi with
  | .nothing =>
    let node := g.node phi
    let unknown ← onGraph fun g => g.add node.block .unknown node.mode []
    modifyGraph fun g => g.exchange phi unknown
    return unknown
  | .single value =>
    modifyGraph fun g => g.exchange phi value
    return value
  | .several => return phi

def addOperands (read : BlockId → Mode → Build NodeId) (phi : NodeId) : Build NodeId := do
  let g := (← get).graph
  let node := g.node phi
  let inputs ← (g.block node.block).preds.mapM fun p => do
    read ((← get).graph.predBlock p) node.mode
  modifyGraph fun g => g.setNode phi { g.node phi with inputs }
  removeTrivialPhi phi

/-- The value of `x` at the end of block `b`. A Phi is put in place before its operands are read, so
that a loop finds it; where blocks with a single predecessor form no circle, the walk visits each block
twice at most, and `fuel` is used up by a circle only. -/
def readAt : (fuel : Nat) → Var → BlockId → Mode → Build NodeId
  | 0, _, _, _ => throw .endless
  | fuel + 1, x, b, mode => do
    let s ← get
    match s.definition? b x with
    | some v => return s.graph.resolve v
    | none =>
      let value ←
        if !s.isMatured b then do
          let phi ← onGraph fun g => g.add b .phi mode []
          modify fun s => s.modifyState b fun state => state.addIncomplete x phi
          pure phi
        else match (s.graph.block b).preds with
          | [] => onGraph fun g => g.add b .unknown mode []
          | [only] => readAt fuel x (s.graph.predBlock only) mode
          | _ => do
            let phi ← onGraph fun g => g.add b .phi mode []
            modify fun s => s.define b x phi
            addOperands (fun p m => readAt fuel x p m) phi
      modify fun s => s.define b x value
      return value

def readFuel (s : Builder) : Nat := 2 * s.graph.blocks.size + 1

def read (x : Var) (b : BlockId) (mode : Mode) : Build NodeId := do
  readAt (readFuel (← get)) x b mode

def getValue (x : Var) (mode : Mode) : Build NodeId := do
  read x (← get).current mode

def setStore (memory : NodeId) : Build Unit := do
  setValue (← get).memoryVar memory

def getStore : Build NodeId := do
  getValue (← get).memoryVar .memory

def completeAll : List (Var × NodeId) → Build Unit
  | [] => return
  | (x, phi) :: rest => do
    let _ ← addOperands (fun b mode => read x b mode) phi
    completeAll rest

def mature (b : BlockId) : Build Unit := do
  if !(← get).isMatured b then
    let incomplete := ((← get).state b).incomplete
    modify fun s => s.modifyState b fun state => { state with incomplete := [] }
    completeAll incomplete.reverse
    modify fun s => s.modifyState b fun state => { state with matured := true }

end JvmGraph.Ssa
