import JvmGraph.Loading

/-!
# Writing class files

Small classes in the form in which they are read. The constant pool begins with the constants that the code
of the methods refers to; the names of the class, of its supertypes, of its methods and of its fields follow.
-/

namespace JvmGraph

open Text

/-- A number in so many bytes, the highest first. -/
def bigEndian (width n : Nat) : Bytes :=
  (List.range width).reverse.map fun i => UInt8.ofNat (n >>> (8 * i))

def Constant.written : Constant → Bytes
  | utf8 bytes => 1 :: bigEndian 2 bytes.length ++ bytes
  | integer value => 3 :: bigEndian 4 value.toBitVec.toNat
  | float bits => 4 :: bigEndian 4 bits.toNat
  | long value => 5 :: bigEndian 8 value.toBitVec.toNat
  | double bits => 6 :: bigEndian 8 bits.toNat
  | classRef name => 7 :: bigEndian 2 name.toNat
  | string text => 8 :: bigEndian 2 text.toNat
  | member .field owner signature => 9 :: bigEndian 2 owner.toNat ++ bigEndian 2 signature.toNat
  | member .method owner signature => 10 :: bigEndian 2 owner.toNat ++ bigEndian 2 signature.toNat
  | member .interfaceMethod owner signature => 11 :: bigEndian 2 owner.toNat ++ bigEndian 2 signature.toNat
  | nameAndType name descriptor => 12 :: bigEndian 2 name.toNat ++ bigEndian 2 descriptor.toNat

def Constant.ascii (text : String) : Constant := utf8 (text.toList.map fun c => UInt8.ofNat c.toNat)

structure MethodDraft where
  flags : Nat
  name : String
  descriptor : String := "()V"
  code? : Option Bytes := none

structure ClassDraft where
  name : String
  flags : Nat := 0x21
  super? : Option String := some "java/lang/Object"
  interfaces : List String := []
  methods : List MethodDraft := []
  fields : List MethodDraft := []
  /-- What the code refers to, from index 1 on. -/
  constants : List Constant := []
  isExtern : Bool := false

namespace ClassDraft

variable (d : ClassDraft)

def classNames : List String := d.name :: d.super?.toList ++ d.interfaces

def classIndex (i : Nat) : Nat := d.constants.length + 2 * i + 2

def methodIndex (i : Nat) : Nat := d.constants.length + 2 * d.classNames.length + 2 * i + 1

def codeIndex : Nat := d.methodIndex (d.methods.length + d.fields.length)

def pool : List Constant :=
  d.constants ++
    (d.classNames.zipIdx.flatMap fun (name, i) => [.ascii name, .classRef (.ofNat (d.classIndex i - 1))]) ++
    ((d.methods ++ d.fields).flatMap fun m => [.ascii m.name, .ascii m.descriptor]) ++ [.ascii "Code"]

/-- The attributes of a method: its code, with four stack slots and four local variables. -/
def attributes (code? : Option Bytes) : Bytes :=
  match code? with
  | none => bigEndian 2 0
  | some code => bigEndian 2 1 ++ bigEndian 2 d.codeIndex ++ bigEndian 4 (code.length + 12) ++ bigEndian 2 4 ++
      bigEndian 2 4 ++ bigEndian 4 code.length ++ code ++ bigEndian 2 0 ++ bigEndian 2 0

def member (m : MethodDraft) (i : Nat) : Bytes :=
  bigEndian 2 m.flags ++ bigEndian 2 (d.methodIndex i) ++ bigEndian 2 (d.methodIndex i + 1) ++ d.attributes m.code?

def written : Bytes :=
  bigEndian 4 0xcafebabe ++ bigEndian 4 50 ++
    bigEndian 2 (d.pool.length + 1) ++ d.pool.flatMap Constant.written ++
    bigEndian 2 d.flags ++ bigEndian 2 (d.classIndex 0) ++ bigEndian 2 (d.super?.elim 0 fun _ => d.classIndex 1) ++
    bigEndian 2 d.interfaces.length ++
      (d.interfaces.zipIdx.flatMap fun (_, i) => bigEndian 2 (d.classIndex (i + 1 + d.super?.toList.length))) ++
    bigEndian 2 d.fields.length ++ (d.fields.zipIdx.flatMap fun (f, i) => d.member f (d.methods.length + i)) ++
    bigEndian 2 d.methods.length ++ (d.methods.zipIdx.flatMap fun (m, i) => d.member m i) ++
    bigEndian 2 0

def object : ClassDraft := { name := "java/lang/Object", super? := none }

def classClass : ClassDraft := { name := "java/lang/Class" }

end ClassDraft

def ClassSource.ofDrafts (drafts : List ClassDraft) : ClassSource :=
  .ofList ((.object :: .classClass :: drafts).map fun d => (d.name, ⟨d.written, d.isExtern⟩))

end JvmGraph
