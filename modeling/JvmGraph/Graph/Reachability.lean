import JvmGraph.Graph.Basic
import JvmGraph.Marks

/-!
# Blocks that control never reaches

A block is reached if it is the start block or a reached block leads to it. The others are marked
dead, and what came from them is taken out of the predecessor lists, together with the matching input
of every Phi. The end block stays, also if the method never returns.
-/

namespace JvmGraph.Graph

abbrev Successors := Array (List BlockId)

def addSuccessor (target : BlockId) (s : Successors) (source : BlockId) : Successors :=
  s.modify source.index fun targets => target :: targets

def successors (g : Graph) : Successors :=
  g.blockIds.foldl (fun s b => ((g.block b).preds.map g.predBlock).foldl (addSuccessor b) s)
    (Array.replicate g.blocks.size [])

/-- Marks the blocks on the work list and all that can be reached from them. A block that is marked
needs no second visit. -/
def visit (s : Successors) : (fuel : Nat) → (seen : Marks) → (work : List BlockId) → Marks
  | 0, seen, _ => seen
  | _ + 1, seen, [] => seen
  | fuel + 1, seen, b :: work =>
    if seen.has b.index then visit s fuel seen work
    else visit s fuel (seen.insert b.index) (s.getD b.index [] ++ work)

/-- The blocks that control reaches from the start block. Every edge puts a block on the work list at
most once, so the number of edges bounds the walk. -/
def reachable (g : Graph) : Marks :=
  visit g.successors (g.edgeCount + 1) (.empty g.blocks.size) [startBlock]

def keepFlagged {α : Type} (flags : List Bool) (items : List α) : List α :=
  (items.zip flags).filterMap fun (a, keep) => if keep then some a else none

def livePreds (g : Graph) (b : BlockId) : List Bool :=
  (g.block b).preds.map fun p => !(g.block (g.predBlock p)).dead

def droppedPcs (g : Graph) (seen : Marks) : List Nat :=
  g.blockIds.filterMap fun b => if seen.has b.index || (g.block b).dead then none else (g.block b).pc?

def bury (g : Graph) (seen : Marks) : Graph :=
  { g with blocks := g.blocks.mapIdx fun i block =>
      if seen.has i then block else { block with dead := true } }

def detachBlock (g : Graph) (b : BlockId) (block : Block) : Block :=
  { block with preds := keepFlagged (g.livePreds b) block.preds }

def detachPhi (g : Graph) (phi : Node) : Node :=
  let keep := g.livePreds phi.block
  if keep.all id then phi else { phi with inputs := keepFlagged keep phi.inputs }

def detach (g : Graph) (seen : Marks) : Graph :=
  { g with
    blocks := g.blocks.mapIdx fun i block => if seen.has i then g.detachBlock ⟨i⟩ block else block
    nodes := g.nodes.map fun n => if n.op = .phi && seen.has n.block.index then g.detachPhi n else n
    keepAlives := g.keepAlives.filter fun n => !(g.block (g.node n).block).dead }

def removeUnreachable (g : Graph) : List Nat × Graph :=
  let seen := g.reachable.insert endBlock.index
  (g.droppedPcs seen, (g.bury seen).detach seen)

end JvmGraph.Graph
