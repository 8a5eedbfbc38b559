import JvmGraph.Abi.Basic
import JvmGraph.Program.Basic

/-!
# Field layout

The instance fields of a class follow those of its superclass in the order of their declaration, each
at the next multiple of its own size. The first word of an object is its dispatch table.
-/

namespace JvmGraph

def align (offset size : Nat) : Nat :=
  let unit := max size 1
  (offset + unit - 1) / unit * unit

namespace Program

def fieldStart (p : Program) (c : ClassId) : Nat :=
  match (p.classAt c).superclass? with
  | some s => (p.classAt s).size
  | none => Abi.pointerSize

def placeFields : Program → (offset : Nat) → (members : List EntityId) → Nat × Program
  | p, offset, [] => (offset, p)
  | p, offset, e :: rest =>
    match p.fieldAt? e with
    | some f =>
      if f.isStatic then p.placeFields offset rest
      else
        let size := f.type.mode.size
        let place := align offset size
        (p.modifyField e fun f => { f with offset? := some place }).placeFields (place + size) rest
    | none => p.placeFields offset rest

def layoutFields (p : Program) (c : ClassId) : Program :=
  let (last, p) := p.placeFields (p.fieldStart c) (p.classAt c).members
  p.modifyClass c fun info => { info with size := align last Abi.pointerSize }

end Program

end JvmGraph
