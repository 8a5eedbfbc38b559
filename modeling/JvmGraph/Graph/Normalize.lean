import JvmGraph.Graph.Basic

/-!
# Normal form

A Phi that merges a single value is that value. Normalising replaces all such Phis, and then lets
every use of a forwarding node refer to the node that it stands for, so that forwarding nodes are no
longer used.
-/

namespace JvmGraph.Graph

def simplifyPhi (g : Graph) (n : NodeId) : Graph × Bool :=
  let node := g.node n
  if node.op = .phi && !(g.block node.block).dead then
    match g.merge n with
    | .single value => (g.exchange n value, true)
    | _ => (g, false)
  else (g, false)

/-- Goes through nodes in order; says whether any was replaced, or `changed` was set before. -/
def simplifyPhis (g : Graph) (changed : Bool) : List NodeId → Graph × Bool
  | [] => (g, changed)
  | n :: rest =>
    let (g, replaced) := g.simplifyPhi n
    g.simplifyPhis (changed || replaced) rest

/-- Goes through all nodes until nothing changes. Every round but the last replaces a Phi, so the
number of nodes is fuel enough. -/
def settlePhis : Nat → Graph → Graph
  | 0, g => g
  | fuel + 1, g =>
    let (g, changed) := g.simplifyPhis false g.nodeIds
    if changed then settlePhis fuel g else g

def redirect (g : Graph) : Graph :=
  { g with
    nodes := g.nodes.map fun n =>
      if n.op = .forward then n else { n with inputs := n.inputs.map g.resolve }
    blocks := g.blocks.map fun b => { b with preds := b.preds.map g.resolve }
    keepAlives := g.keepAlives.map g.resolve }

def normalize (g : Graph) : Graph := (settlePhis g.nodes.size g).redirect

end JvmGraph.Graph
