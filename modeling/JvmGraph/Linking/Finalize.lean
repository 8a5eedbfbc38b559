import JvmGraph.Abi.ClassObject
import JvmGraph.Abi.FieldLayout
import JvmGraph.Abi.VTable
import JvmGraph.Linking.Interfaces

/-!
# Finalizing classes

A class is finalized after its superclass and its interfaces: its members are created, interface
methods are linked, fields and dispatch table are laid out, and the class object is filled in unless the
class is extern. A finalized class waits in the queue for the compilation of its methods.
-/

namespace JvmGraph

open Load

/-- Takes over what a class inherits from its superclass, finalized by `finalize`. The root class gets
the field for the dispatch table instead. -/
def linkSuperclass (source : ClassSource) (finalize : ClassId → Load Unit) (c : ClassId)
    (superName? : Option String) : Load Unit := do
  match superName? with
  | some name =>
    let super ← classNamed source name
    finalize super
    let vptr? := ((← get).classAt super).vptr?
    modifyClass c fun info => { info with superclass? := some super, vptr? }
  | none => addVptr c

def addInterfaces (source : ClassSource) (finalize : ClassId → Load Unit) (c : ClassId)
    (pool : ConstantPool) : List UInt16 → Load Unit
  | [] => return
  | index :: rest => do
    let interface ← classNamed source (← pureStep (pool.className index))
    finalize interface
    modifyClass c fun info => { info with interfaces := info.interfaces ++ [interface] }
    addInterfaces source finalize c pool rest

def layoutClass (c : ClassId) : Load Unit := do
  modifyProgram fun p => p.layoutFields c
  let trap ← onImage fun im => im.function .throwAbstractMethodError
  let p ← pureStep ((← get).program.layoutVTable c trap)
  modifyProgram fun _ => p
  let w ← get
  if !(w.classAt c).isExtern then
    let classVTable? := (w.named? classClassName).bind fun k => (w.classAt k).vtable?
    imageStep (ClassObject.emit classVTable? trap c)

/-- One class, its supertypes being finalized by `finalize`. A class stays marked if this fails, and
nothing is done for one that is marked. -/
def finalizeWith (source : ClassSource) (finalize : ClassId → Load Unit) (c : ClassId) : Load Unit := do
  let w ← get
  if (w.classAt c).state = .finalized || c ∈ w.finalizing then return
  set { w with finalizing := c :: w.finalizing }
  let file ← classFileOf c
  linkSuperclass source finalize c (← pureStep file.superName?)
  addFields c file.fields
  addMethods c file.methods
  addInterfaces source finalize c file.pool file.interfaces
  if !file.isInterface then
    linkInterfaces c ((← get).program.allInterfaces c)
  layoutClass c
  modify fun w => w.enqueue c
  modify fun w => { w with finalizing := w.finalizing.filter (· ≠ c) }
  modifyClass c fun info => { info with state := .finalized }

def finalizeWithin (source : ClassSource) : (depth : Nat) → ClassId → Load Unit
  | 0, _ => throw .endless
  | depth + 1, c => finalizeWith source (finalizeWithin source depth) c

/-- Finalizes a class. On the way from a class up, every class is marked, so no more can follow each
other than there are or can be loaded. -/
def finalizeClass (source : ClassSource) (c : ClassId) : Load Unit := do
  finalizeWithin source (source.size + (← get).program.classes.size + 2) c

end JvmGraph
