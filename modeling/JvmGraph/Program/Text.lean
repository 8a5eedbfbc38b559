import JvmGraph.Graph.Text
import JvmGraph.Program.Basic

/-!
# Printed programs

A line for each entity, with its place and what it holds, and then the graphs of the methods that have
one.
-/

namespace JvmGraph

open Text

def Visibility.text : Visibility → String
  | exported => "local"
  | hidden => "private"
  | external => "external"

def Initializer.text : Initializer → String
  | null => "null"
  | const mode value => mode.mark ++ ":" ++ decimal value
  | address e => "&" ++ e.text
  | bytes b => quoted (Utf8.decodeLossy b)
  | compound parts => "\x7b " ++ separated ", " (parts.map fun i => i.text) ++ " \x7d"

def EntityKind.text : EntityKind → String
  | method m => "method " ++ m.descriptor ++ m.slot?.elim "" fun s => " slot " ++ Nat.repr s
  | field f => "field " ++ f.descriptor ++ f.offset?.elim " static" fun o => " +" ++ Nat.repr o
  | data => "data"
  | function .. => "function"

namespace Program

def entityLine (p : Program) (id : EntityId) : String :=
  let e := p.entityAt id
  id.text ++ " " ++ e.visibility.text ++ " " ++ e.symbol ++ " (" ++ e.kind.text ++ ")"
    ++ (e.initializer?.elim "" fun i => " = " ++ i.text) ++ "\n"

def graphs (p : Program) : List Graph :=
  p.entities.toList.filterMap fun e => e.method?.bind Method.graph?

def text (p : Program) : String :=
  String.join (p.entityIds.map p.entityLine) ++ String.join (p.graphs.map fun g => "\n" ++ g.text)

end Program

end JvmGraph
