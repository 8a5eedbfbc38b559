import JvmGraph.Lowering
import JvmGraph.MethodBody.Assembly

/-!
# Compilation

From a root class, every class that is referred to is loaded, finalized and compiled, and in the end
all graphs are lowered. The class of classes comes first, because every class object is an instance of
it.
-/

namespace JvmGraph

open Load

structure Compilation where
  program : Program
  root : ClassId
  /-- The symbol of the class object of the root class. -/
  rootSymbol : String

def Compilation.startup (c : Compilation) : String := startupStub c.rootSymbol

def processClass (source : ClassSource) (c : ClassId) : Load Unit := do
  if ((← get).classAt c).isExtern then return
  finalizeClass source c
  constructClass source c

def processQueue (source : ClassSource) : (fuel : Nat) → Load Unit
  | 0 => throw .endless
  | fuel + 1 => do
    match ← modifyGet World.dequeue with
    | none => return
    | some c =>
      processClass source c
      processQueue source fuel

/-- Compiles a root class and all that it refers to, up to lowering, with so many steps of the queue. Gives
the number of the root class. -/
def loadFrom (source : ClassSource) (root : String) (fuel : Nat) : Load ClassId := do
  let classClass ← classNamed source classClassName
  modify fun w => w.enqueue classClass
  let rootId ← classNamed source root
  modify fun w => w.enqueue rootId
  processQueue source fuel
  return rootId

def lowerWorld (flavour : Flavour) : Load Unit := imageStep (Image.lower flavour)

/-- Compiles a root class. A class enters the queue once, so the queue is empty after as many steps as
classes can be loaded. -/
def compileSteps (source : ClassSource) (root : String) (flavour : Flavour) : Load Compilation := do
  let rootId ← loadFrom source root (source.size + 1)
  lowerWorld flavour
  modifyProgram Program.dropExternVTables
  let program := (← get).program
  match (program.classAt rootId).classObject? with
  | none => throw (.classNotFound root)
  | some e => return { program, root := rootId, rootSymbol := (program.entityAt e).symbol }

def compile (source : ClassSource) (root : String) (flavour : Flavour) : Except Error Compilation :=
  match compileSteps source root flavour {} with
  | .ok c _ => .ok c
  | .error e _ => .error e

end JvmGraph
