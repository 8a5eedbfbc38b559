import JvmGraph.Graph.Basic
import JvmGraph.Text.Numeral

/-!
# Printed graphs

A graph is printed block by block: the block with its predecessors, then its live nodes with their
operation, mode and inputs. Control operations carry a mark. Dead blocks are left out.
-/

namespace JvmGraph

open Text

def EntityId.text (e : EntityId) : String := "e" ++ Nat.repr e.index

def NodeId.text (n : NodeId) : String := "%" ++ Nat.repr n.index

def Op.text : Op → String
  | start => "Start"
  | proj n => "Proj[" ++ Nat.repr n ++ "]"
  | const bits => "Const[0x" ++ hex bits.toNat ++ "]"
  | address e => "Address[" ++ e.text ++ "]"
  | unknown => "Unknown"
  | bad => "Bad"
  | forward => "Id"
  | add => "Add"
  | sub => "Sub"
  | mul => "Mul"
  | minus => "Minus"
  | and => "And"
  | or => "Or"
  | eor => "Eor"
  | shl => "Shl"
  | shr => "Shr"
  | shrs => "Shrs"
  | div => "Div"
  | mod => "Mod"
  | conv => "Conv"
  | cmp r => "Cmp[" ++ r.text ++ "]"
  | cond => "Cond"
  | jmp => "Jmp"
  | ret => "Return"
  | phi => "Phi"
  | load m => "Load[" ++ m.mark ++ "]"
  | store => "Store"
  | sel e => "Sel[" ++ e.text ++ "]"
  | call => "Call"
  | methodSel e => "MethodSel[" ++ e.text ++ "]"
  | alloc t => "Alloc[" ++ t.text ++ "]"
  | arrayLength => "Arraylength"
  | instanceOf t => "InstanceOf[" ++ t.text ++ "]"

def Op.isControl : Op → Bool
  | cond | jmp | ret => true
  | _ => false

namespace Graph

def nodeList (ns : List NodeId) : String := separated ", " (ns.map NodeId.text)

def nodeLine (g : Graph) (n : NodeId) : String :=
  let node := g.node n
  "    " ++ n.text ++ " = " ++ node.op.text ++ " " ++ node.mode.mark ++ " (" ++ nodeList node.inputs
    ++ ")" ++ (if node.op.isControl then " !" else "") ++ "\n"

def blockLine (g : Graph) (b : BlockId) : String :=
  let block := g.block b
  let tag := if b = startBlock then " start" else if b = endBlock then " end" else ""
  let pc := block.pc?.elim "" fun pc => " @" ++ Nat.repr pc
  "  block" ++ Nat.repr b.index ++ tag ++ pc ++ " <- [" ++ nodeList block.preds ++ "]\n"

def nodesByBlock (g : Graph) : Array (List NodeId) :=
  g.liveNodes.foldr (fun n lists => lists.modify (g.node n).block.index fun ns => n :: ns)
    (Array.replicate g.blocks.size [])

def blockText (g : Graph) (b : BlockId) (nodes : List NodeId) : String :=
  g.blockLine b ++ String.join (nodes.map g.nodeLine)

def text (g : Graph) : String :=
  let nodes := g.nodesByBlock
  "graph " ++ g.name ++ " \x7b\n"
    ++ String.join ((g.blockIds.filter fun b => !(g.block b).dead).map fun b =>
      g.blockText b (nodes.getD b.index []))
    ++ (if g.keepAlives.isEmpty then "" else "  keep [" ++ nodeList g.keepAlives ++ "]\n")
    ++ "\x7d\n"

end Graph

end JvmGraph
