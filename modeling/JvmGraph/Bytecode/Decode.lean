import JvmGraph.Bytecode.Operation
import JvmGraph.ClassFile.Reader

/-!
# Decoding bytecode

Instructions are read one after the other from address 0 until the bytes end or one cannot be read;
what follows such an instruction is left out. The opcode space is laid out by families: within a
family, the distance from its first opcode gives the kind and the operand. An instruction that can be
read but makes no sense (a branch in front of the code, an array of an unknown element kind) is a
fault.
-/

namespace JvmGraph

open Text Reader

namespace Bytecode

def i8 : Reader Int := return (← u8).toInt8.toInt
def i16 : Reader Int := return (← u16).toInt16.toInt
def i32 : Reader Int32 := return (← u32).toInt32
def index8 : Reader UInt16 := return (← u8).toUInt16

def undecodable {α : Type} : Reader α := throw .truncated

def zero : Reader Unit := do
  if (← u8) ≠ 0 then undecodable

def entry {α : Type} (table : List α) (i : Nat) : Reader α :=
  match table[i]? with
  | some a => return a
  | none => undecodable

def targetOf (pc : Nat) (offset : Int) : Except Error Nat :=
  match (pc : Int) + offset with
  | .ofNat target => .ok target
  | .negSucc n => .error (.invalidBranchTarget pc (.negSucc n))

def localKinds : List Kind := [.int, .long, .float, .double, .object]

def elementKinds : List Kind := [.int, .long, .float, .double, .object, .byte, .char, .short]

def numericKinds : List Kind := [.int, .long, .float, .double]

/-- `nop`, `aconst_null`, the small constants, `bipush`, `sipush` and the `ldc` family. -/
def constantAt (i : Nat) : Reader Operation :=
  if i = 0 then return .noop
  else if i = 1 then return .constant .object 0
  else if i ≤ 8 then return .constant .int ((i : Int) - 3)
  else if i ≤ 10 then return .constant .long ((i : Int) - 9)
  else if i ≤ 13 then return .constant .float ((i : Int) - 11)
  else if i ≤ 15 then return .constant .double ((i : Int) - 14)
  else if i = 16 then return .constant .int (← i8)
  else if i = 17 then return .constant .int (← i16)
  else if i = 18 then return .loadConstant (← index8)
  else return .loadConstant (← u16)

def accessAt (ofLocal : Kind → UInt16 → Operation) (ofElement : Kind → Operation) (i : Nat) :
    Reader Operation :=
  if i < 5 then return ofLocal (← entry localKinds i) (← index8)
  else if i < 25 then return ofLocal (← entry localKinds ((i - 5) / 4)) (UInt16.ofNat ((i - 5) % 4))
  else return ofElement (← entry elementKinds (i - 25))

def shuffles : List Operation :=
  [.shuffle false .pop, .shuffle true .pop, .shuffle false .dup, .shuffle false .dupX1,
    .shuffle false .dupX2, .shuffle true .dup, .shuffle true .dupX1, .shuffle true .dupX2,
    .shuffle false .swap]

def arithmeticAt (i : Nat) : Reader Operation :=
  if i < 24 then do
    return .arithmetic (← entry numericKinds (i % 4)) (← entry [.add, .sub, .mul, .div, .rem, .neg] (i / 4))
  else if i < 36 then do
    return .arithmetic (← entry numericKinds (i % 2))
      (← entry [.shl, .shr, .ushr, .and, .or, .xor] ((i - 24) / 2))
  else return .increment (← index8) (← i8)

def conversions : List Operation :=
  [.convert .int .long, .convert .int .float, .convert .int .double,
    .convert .long .int, .convert .long .float, .convert .long .double,
    .convert .float .int, .convert .float .long, .convert .float .double,
    .convert .double .int, .convert .double .long, .convert .double .float,
    .convert .int .byte, .convert .int .char, .convert .int .short]

def comparisons : List Operation :=
  [.compare .long none, .compare .float (some .less), .compare .float (some .greater),
    .compare .double (some .less), .compare .double (some .greater)]

def branches : List (Kind × Bool × Comparison) :=
  [(.int, false, .eq), (.int, false, .ne), (.int, false, .lt), (.int, false, .ge), (.int, false, .gt),
    (.int, false, .le), (.int, true, .eq), (.int, true, .ne), (.int, true, .lt), (.int, true, .ge),
    (.int, true, .gt), (.int, true, .le), (.object, true, .eq), (.object, true, .ne)]

/-- Operations on a constant pool entry, in opcode order. -/
def accesses : List (UInt16 → Operation) :=
  [.getStatic, .putStatic, .getField, .putField, .invoke .virtual, .invoke .special, .invoke .static]

def returns : List Kind := localKinds ++ [.void]

/-- Bytes between the opcode at `pc` and the next address divisible by 4. -/
def padding (pc : Nat) : Nat := 3 - pc % 4

def entryCount (low high : Int32) : Reader Nat := do
  let span := high.toInt - low.toInt
  if span < Int32.minValue.toInt ∨ Int32.maxValue.toInt < span + 1 then
    throw (.breakdown .jumpTableSize)
  match span + 1 with
  | .ofNat count => return count
  | .negSucc _ => undecodable

def tableSwitch (pc : Nat) : Reader Operation := do
  let _ ← take (padding pc)
  let d ← i32
  let low ← i32
  let high ← i32
  let count ← entryCount low high
  let offsets ← times count i32
  return .uncompiled (.tableSwitch d.toInt low.toInt high.toInt (offsets.map Int32.toInt))

def lookupSwitch (pc : Nat) : Reader Operation := do
  let _ ← take (padding pc)
  let d ← i32
  let count ← u32
  let pairs ← times count.toNat (do return ((← i32).toInt, (← i32).toInt))
  return .uncompiled (.lookupSwitch d.toInt pairs)

def wide : Reader Operation := do
  let i := (← u8).toNat
  if 0x15 ≤ i ∧ i ≤ 0x19 then return .loadLocal (← entry localKinds (i - 0x15)) (← u16)
  else if 0x36 ≤ i ∧ i ≤ 0x3a then return .storeLocal (← entry localKinds (i - 0x36)) (← u16)
  else if i = 0xa9 then return .uncompiled (.retWide (← u16).toNat)
  else if i = 0x84 then return .increment (← u16) (← i16)
  else undecodable

def branchTo (pc : Nat) (operation : Nat → Operation) : Reader (Except Error Operation) := do
  let offset ← i16
  return (targetOf pc offset).map operation

/-- Instructions that always make sense once they are read. -/
def plainAt (pc op : Nat) : Reader Operation :=
  if op ≤ 0x14 then constantAt op
  else if op ≤ 0x35 then accessAt .loadLocal .loadArray (op - 0x15)
  else if op ≤ 0x56 then accessAt .storeLocal .storeArray (op - 0x36)
  else if op ≤ 0x5f then entry shuffles (op - 0x57)
  else if op ≤ 0x84 then arithmeticAt (op - 0x60)
  else if op ≤ 0x93 then entry conversions (op - 0x85)
  else if op ≤ 0x98 then entry comparisons (op - 0x94)
  else if op = 0xa8 then return .uncompiled (.jsr (← i16))
  else if op = 0xa9 then return .uncompiled (.ret (← u8).toNat)
  else if op = 0xaa then tableSwitch pc
  else if op = 0xab then lookupSwitch pc
  else if op ≤ 0xb1 then return .yield (← entry returns (op - 0xac))
  else if op ≤ 0xb8 then return (← entry accesses (op - 0xb2)) (← u16)
  else if op = 0xb9 then do
    let index ← u16
    let count ← u8
    zero
    return .invoke (.interface count) index
  else if op = 0xba then do
    let index ← u16
    zero
    zero
    return .invoke .dynamic index
  else if op = 0xbb then return .new (← u16)
  else if op = 0xbd then return .newArray (.named (← u16)) 1
  else if op = 0xbe then return .arrayLength
  else if op = 0xbf then return .throw
  else if op = 0xc0 then return .checkCast (← u16)
  else if op = 0xc1 then return .instanceOf (← u16)
  else if op ≤ 0xc3 then return .monitor
  else if op = 0xc4 then wide
  else if op = 0xc5 then return .newArray (.named (← u16)) (← u8).toNat
  else if op = 0xc9 then return .uncompiled (.jsrWide (← i32).toInt)
  else undecodable

def operationAt (pc : Nat) : Reader (Except Error Operation) := do
  let op := (← u8).toNat
  if 0x99 ≤ op ∧ op ≤ 0xa6 then do
    let (kind, binary, way) ← entry branches (op - 0x99)
    branchTo pc (.branch kind binary way)
  else if op = 0xa7 then branchTo pc .jump
  else if op = 0xbc then do
    let code ← u8
    return match Kind.ofArrayCode? code with
      | some k => .ok (.newArray (.primitive k) 1)
      | none => .error (.unknownArrayCode code)
  else if op = 0xc6 then branchTo pc (.branch .object false .eq)
  else if op = 0xc7 then branchTo pc (.branch .object false .ne)
  else if op = 0xc8 then do
    let offset ← i32
    return (targetOf pc offset.toInt).map .jump
  else return .ok (← plainAt pc op)

def instruction : Reader (Nat × Except Error Operation) := do
  let pc := (← get).position
  return (pc, ← operationAt pc)

/-- The instructions of the input, after `done`, the last one first. Each takes a byte at least, so the
number of bytes is fuel enough. -/
def instructions (done : List (Nat × Except Error Operation)) :
    (fuel : Nat) → Input → Except Error (List (Nat × Except Error Operation))
  | 0, _ => .ok done.reverse
  | fuel + 1, input =>
    match instruction input with
    | .ok (i, rest) => instructions (i :: done) fuel rest
    | .error e => if e.isBreakdown then .error e else .ok done.reverse

/-- The operations of a method body with their addresses. All of it is read before the first fault
counts. -/
def decode (code : Bytes) : Except Error (List (Nat × Operation)) := do
  (← instructions [] code.length ⟨0, code⟩).mapM fun (pc, operation) => do return (pc, ← operation)

end Bytecode

end JvmGraph
