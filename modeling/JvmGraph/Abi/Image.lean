import JvmGraph.Abi.Basic
import JvmGraph.Program.Basic

/-!
# Shared entities

Runtime functions, the class objects of primitive kinds, and constant strings belong to no class. They
are declared when they are first asked for and shared from then on. An image is a program with the
tables of what was declared so far.
-/

namespace JvmGraph

open Text

/-- Constant strings with the entities that hold them, in the order of their first use. -/
abbrev Strings := List (Bytes × EntityId)

structure StringPool where
  /-- Records of hash, length and text, as method and field tables name things. -/
  records : Strings := []
  /-- Texts that end with a NUL byte. -/
  literals : Strings := []
  deriving Inhabited

def StringPool.size (p : StringPool) : Nat := p.records.length + p.literals.length

structure Image where
  program : Program := {}
  functions : List (RuntimeFunction × EntityId) := []
  primitives : List (Kind × EntityId) := []
  strings : StringPool := {}
  deriving Inhabited

def recordHash (bytes : Bytes) : UInt16 :=
  bytes.foldl (fun h b => 31 * h + b.toUInt16) 0

def recordInitializer (bytes : Bytes) : Initializer :=
  .compound [.const .char (recordHash bytes).toNat, .const .char bytes.length, .bytes (bytes ++ [0])]

def literalInitializer (bytes : Bytes) : Initializer := .bytes (bytes ++ [0])

namespace Image

def newEntity (im : Image) (e : Entity) : EntityId × Image :=
  let (id, program) := im.program.newEntity e
  (id, { im with program })

def modifyProgram (im : Image) (f : Program → Program) : Image := { im with program := f im.program }

def function (im : Image) (f : RuntimeFunction) : EntityId × Image :=
  match im.functions.lookup f with
  | some e => (e, im)
  | none =>
    let (e, im) := im.newEntity (.global f.symbol (.function f.params f.result?) .external none)
    (e, { im with functions := im.functions ++ [(f, e)] })

def primitiveClass (im : Image) (k : Kind) : EntityId × Image :=
  match im.primitives.lookup k with
  | some e => (e, im)
  | none =>
    let (e, im) := im.newEntity (.global k.classObject .data .external none)
    (e, { im with primitives := im.primitives ++ [(k, e)] })

def record (im : Image) (bytes : Bytes) : EntityId × Image :=
  match im.strings.records.lookup bytes with
  | some e => (e, im)
  | none =>
    let name := "_Utf" ++ Nat.repr im.strings.records.length
    let (e, im) := im.newEntity (.global name .data .hidden (some (recordInitializer bytes)))
    (e, { im with strings := { im.strings with records := im.strings.records ++ [(bytes, e)] } })

def literal (im : Image) (bytes : Bytes) : EntityId × Image :=
  match im.strings.literals.lookup bytes with
  | some e => (e, im)
  | none =>
    let name := "_Str" ++ Nat.repr im.strings.literals.length
    let (e, im) := im.newEntity (.global name .data .hidden (some (literalInitializer bytes)))
    (e, { im with strings := { im.strings with literals := im.strings.literals ++ [(bytes, e)] } })

def nameRecord (im : Image) (name : String) : EntityId × Image := im.record (Utf8.encode name)

end Image

end JvmGraph
