import JvmGraph.Error
import JvmGraph.Text.Utf8

/-!
# Class files

A class file as a record. All references between its parts are 16-bit indices into its constant
pool. A `long` or `double` takes two indices, and index 0 and the second index of such a constant name
nothing.
-/

namespace JvmGraph

open Text

structure AccessFlags where
  bits : UInt16
  deriving DecidableEq, Repr, Inhabited

namespace AccessFlags

def defined : UInt16 := 0x0fff

def ofBits (bits : UInt16) : AccessFlags := ⟨bits &&& defined⟩

def none : AccessFlags := ⟨0⟩

def hiddenMember : AccessFlags := ⟨0x0002⟩

def has (f : AccessFlags) (mask : UInt16) : Bool := f.bits &&& mask != 0

def isPrivate (f : AccessFlags) : Bool := f.has 0x0002
def isStatic (f : AccessFlags) : Bool := f.has 0x0008
def isFinal (f : AccessFlags) : Bool := f.has 0x0010
def isNative (f : AccessFlags) : Bool := f.has 0x0100
def isInterface (f : AccessFlags) : Bool := f.has 0x0200
def isAbstract (f : AccessFlags) : Bool := f.has 0x0400

end AccessFlags

inductive RefKind where
  | field | method | interfaceMethod
  deriving DecidableEq, Repr

def RefKind.role : RefKind → ConstantRole
  | field => .fieldReference
  | method => .methodReference
  | interfaceMethod => .interfaceMethodReference

inductive Constant where
  | utf8 (bytes : Bytes)
  | integer (value : Int32)
  | float (bits : UInt32)
  | long (value : Int64)
  | double (bits : UInt64)
  | classRef (name : UInt16)
  | string (text : UInt16)
  | member (kind : RefKind) (owner nameAndType : UInt16)
  | nameAndType (name descriptor : UInt16)
  deriving DecidableEq

def Constant.isWide : Constant → Bool
  | long _ | double _ => true
  | _ => false

def Constant.entries (c : Constant) : List (Option Constant) :=
  if c.isWide then [some c, none] else [some c]

structure ConstantPool where
  /-- What each index names. -/
  entries : Array (Option Constant)

structure MemberRef where
  classIndex : UInt16
  className : String
  name : String
  descriptor : String
  deriving DecidableEq, Repr

namespace ConstantPool

def ofConstants (constants : List Constant) : ConstantPool :=
  ⟨(none :: constants.flatMap Constant.entries).toArray⟩

def count (p : ConstantPool) : Nat := p.entries.size

def indexed (p : ConstantPool) : List (Nat × Constant) :=
  p.entries.toList.zipIdx.filterMap fun (c?, i) => c?.map fun c => (i, c)

def get? (p : ConstantPool) (index : UInt16) : Option Constant := p.entries.getD index.toNat none

def get (p : ConstantPool) (index : UInt16) : Except Error Constant :=
  match p.get? index with
  | some c => .ok c
  | none => .error (.invalidConstantIndex index)

def bytes (p : ConstantPool) (index : UInt16) : Except Error Bytes := do
  match ← p.get index with
  | .utf8 b => return b
  | _ => throw (.unexpectedConstant index .utf8)

def text (p : ConstantPool) (index : UInt16) : Except Error String := do
  match Utf8.decode? (← p.bytes index) with
  | some s => return s
  | none => throw (.unexpectedConstant index .utf8)

def className (p : ConstantPool) (index : UInt16) : Except Error String := do
  match ← p.get index with
  | .classRef name => p.text name
  | _ => throw (.unexpectedConstant index .classReference)

def nameAndType (p : ConstantPool) (index : UInt16) : Except Error (String × String) := do
  match ← p.get index with
  | .nameAndType name descriptor => return (← p.text name, ← p.text descriptor)
  | _ => throw (.unexpectedConstant index .nameAndType)

def memberRef (p : ConstantPool) (index : UInt16) (kind : RefKind) : Except Error MemberRef := do
  match ← p.get index with
  | .member k owner nat =>
    if k ≠ kind then throw (.unexpectedConstant index kind.role)
    let (name, descriptor) ← p.nameAndType nat
    let className ← p.className owner
    return { classIndex := owner, className, name, descriptor }
  | _ => throw (.unexpectedConstant index kind.role)

end ConstantPool

structure Handler where
  startPc : UInt16
  endPc : UInt16
  handlerPc : UInt16
  catchType : UInt16
  deriving DecidableEq, Repr

inductive Attribute where
  | code (maxStack maxLocals : UInt16) (code : Bytes) (handlers : List Handler)
      (attributes : List Attribute)
  | other (nameIndex : UInt16) (info : Bytes)

structure Code where
  maxStack : UInt16
  maxLocals : UInt16
  bytes : Bytes
  deriving DecidableEq, Repr

def Attribute.code? : Attribute → Option Code
  | .code maxStack maxLocals bytes _ _ => some { maxStack, maxLocals, bytes }
  | .other .. => none

structure Member where
  flags : AccessFlags
  nameIndex : UInt16
  descriptorIndex : UInt16
  attributes : List Attribute

def Member.code? (m : Member) : Option Code := m.attributes.findSome? Attribute.code?

structure ClassFile where
  minorVersion : UInt16
  majorVersion : UInt16
  pool : ConstantPool
  flags : AccessFlags
  thisClass : UInt16
  superClass : UInt16
  interfaces : List UInt16
  fields : List Member
  methods : List Member
  attributes : List Attribute

namespace ClassFile

def name (f : ClassFile) : Except Error String := f.pool.className f.thisClass

def superName? (f : ClassFile) : Except Error (Option String) := do
  if f.superClass = 0 then return none
  return some (← f.pool.className f.superClass)

def nameOf (f : ClassFile) (m : Member) : Except Error String := f.pool.text m.nameIndex

def descriptorOf (f : ClassFile) (m : Member) : Except Error String := f.pool.text m.descriptorIndex

def isInterface (f : ClassFile) : Bool := f.flags.isInterface

end ClassFile

end JvmGraph
