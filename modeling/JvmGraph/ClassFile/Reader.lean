import JvmGraph.ClassFile.Basic

/-!
# Reading class files

The file is read once from front to back, in big-endian order; every list stands behind its count or
length. The first fault found is reported.
-/

namespace JvmGraph

open Text

/-- What is left to be read, and how many bytes have been read before it. -/
structure Input where
  position : Nat
  rest : Bytes
  deriving DecidableEq, Repr

abbrev Reader := StateT Input (Except Error)

namespace Reader

def u8 : Reader UInt8 := fun
  | ⟨position, a :: rest⟩ => .ok (a, ⟨position + 1, rest⟩)
  | _ => .error .truncated

def u16 : Reader UInt16 := do
  let hi ← u8
  let lo ← u8
  return hi.toUInt16 <<< 8 ||| lo.toUInt16

def u32 : Reader UInt32 := do
  let hi ← u16
  let lo ← u16
  return hi.toUInt32 <<< 16 ||| lo.toUInt32

def u64 : Reader UInt64 := do
  let hi ← u32
  let lo ← u32
  return hi.toUInt64 <<< 32 ||| lo.toUInt64

def take (n : Nat) : Reader Bytes := fun ⟨position, rest⟩ =>
  let taken := rest.take n
  if taken.length = n then .ok (taken, ⟨position + n, rest.drop n⟩) else .error .truncated

def timesAfter {α : Type} (r : Reader α) (done : List α) : Nat → Reader (List α)
  | 0 => return done.reverse
  | n + 1 => do timesAfter r ((← r) :: done) n

def times {α : Type} (n : Nat) (r : Reader α) : Reader (List α) := timesAfter r [] n

def counted {α : Type} (r : Reader α) : Reader (List α) := do
  let n ← u16
  times n.toNat r

def whole {α : Type} (r : Reader α) (input : Bytes) : Except Error α := do
  let (a, left) ← r ⟨0, input⟩
  if left.rest.isEmpty then return a else throw (.trailingBytes left.rest.length)

end Reader

open Reader

def readMemberRef (kind : RefKind) : Reader Constant := return .member kind (← u16) (← u16)

def readConstant : Reader Constant := do
  let tag ← u8
  match tag.toNat with
  | 1 => return .utf8 (← take (← u16).toNat)
  | 3 => return .integer (← u32).toInt32
  | 4 => return .float (← u32)
  | 5 => return .long (← u64).toInt64
  | 6 => return .double (← u64)
  | 7 => return .classRef (← u16)
  | 8 => return .string (← u16)
  | 9 => readMemberRef .field
  | 10 => readMemberRef .method
  | 11 => readMemberRef .interfaceMethod
  | 12 => return .nameAndType (← u16) (← u16)
  | _ => throw (.unsupportedConstantTag tag)

/-- Constants until `n` indices are taken, after `done`, the last one first. A wide constant in the
last place takes one index more. -/
def readConstants (done : List Constant) : Nat → Reader (List Constant)
  | 0 => return done.reverse
  | 1 => return ((← readConstant) :: done).reverse
  | n + 2 => do
    let c ← readConstant
    if c.isWide then readConstants (c :: done) n else readConstants (c :: done) (n + 1)

/-- The count is one more than the indices in use, since index 0 is not. -/
def readPool : Reader ConstantPool := do
  let n ← u16
  return .ofConstants (← readConstants [] (n.toNat - 1))

def readHandler : Reader Handler := do
  let startPc ← u16
  let endPc ← u16
  let handlerPc ← u16
  let catchType ← u16
  return { startPc, endPc, handlerPc, catchType }

def readCode (length : UInt32) (nested : Reader Attribute) : Reader Attribute := do
  let maxStack ← u16
  let maxLocals ← u16
  let codeLength ← u32
  if length ≤ codeLength then throw (.badCodeLength length codeLength)
  let code ← take codeLength.toNat
  let handlers ← counted readHandler
  let attributes ← counted nested
  return .code maxStack maxLocals code handlers attributes

/-- The name under which an attribute holds a method body. -/
def codeName : Bytes := Utf8.encode "Code"

/-- An attribute. Code attributes may hold attributes in turn, each within fewer bytes; where `depth`
bounds the bytes at hand, at depth 0 there are none left to read. -/
def readAttribute (pool : ConstantPool) : (depth : Nat) → Reader Attribute
  | 0 => throw .truncated
  | depth + 1 => do
    let nameIndex ← u16
    let length ← u32
    let body ← take length.toNat
    let name ← pool.bytes nameIndex
    if name = codeName then
      whole (readCode (UInt32.ofNat body.length) (readAttribute pool depth)) body
    else return .other nameIndex body

def readMember (nested : Reader Attribute) : Reader Member := do
  let flags ← u16
  let nameIndex ← u16
  let descriptorIndex ← u16
  let attributes ← counted nested
  return { flags := .ofBits flags, nameIndex, descriptorIndex, attributes }

def classMagic : UInt32 := 0xcafebabe

def isSupported (major minor : UInt16) : Bool := minor == 0 && (major == 49 || major == 50)

def readClass (size : Nat) : Reader ClassFile := do
  let magic ← u32
  if magic ≠ classMagic then throw (.badMagic magic)
  let minorVersion ← u16
  let majorVersion ← u16
  if !isSupported majorVersion minorVersion then
    throw (.unsupportedVersion majorVersion minorVersion)
  let pool ← readPool
  let nested := readAttribute pool size
  let flags ← u16
  let thisClass ← u16
  let superClass ← u16
  let interfaces ← counted u16
  let fields ← counted (readMember nested)
  let methods ← counted (readMember nested)
  let attributes ← counted nested
  return {
    minorVersion, majorVersion, pool, flags := .ofBits flags, thisClass, superClass, interfaces,
    fields, methods, attributes }

def ClassFile.parse (bytes : Bytes) : Except Error ClassFile :=
  whole (readClass bytes.length) bytes

end JvmGraph
