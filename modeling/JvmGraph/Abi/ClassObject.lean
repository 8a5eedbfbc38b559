import JvmGraph.Abi.Image

/-!
# Class objects

Every emitted class has a class object that the runtime reads directly: an instance of the class of
classes, with tables of the methods, fields and interfaces of the class it describes.
-/

namespace JvmGraph.ClassObject

open Text

def fieldNames : List String := [
  "vptr", "next_or_version", "name", "accflags", "superclass",
  "constants.size", "constants.tags", "constants.data",
  "methods", "method_count", "vtable_method_count",
  "fields", "size_in_bytes", "field_count", "static_field_count",
  "vtable", "otable", "otable_syms", "atable", "atable_syms", "itable", "itable_syms",
  "catch_classes", "interfaces", "loader", "interface_count", "state", "thread",
  "depth", "ancestors", "idt", "arrayclass", "protectionDomain", "assertion_table",
  "hack_signers", "chain", "aux_info", "engine"]

abbrev Emit := EStateM Error Image

def slotNumber (slot : Nat) : Except Error Nat :=
  if Abi.headerSlots ≤ slot then .ok (slot - Abi.headerSlots)
  else .error (.breakdown .slotInHeader)

def methodNumber (m : Method) : Except Error Nat := m.slot?.elim (.ok Abi.noSlot) slotNumber

def codeOf (trap e : EntityId) (m : Method) : EntityId :=
  if m.isAbstract then trap else m.implementation?.getD e

def methodEntry (trap e : EntityId) (name : String) (m : Method) : Emit Initializer := do
  let nameRecord ← modifyGet fun im => im.nameRecord name
  let descriptorRecord ← modifyGet fun im => im.nameRecord m.descriptor
  let number ← match methodNumber m with
    | .ok number => pure number
    | .error e => throw e
  return .compound [
    .address nameRecord,
    .address descriptorRecord,
    .const .char m.flags.bits.toNat,
    .const .char number,
    .address (codeOf trap e m),
    .null]

def fieldEntry (e : EntityId) (name : String) (f : Field) : Emit Initializer := do
  let (type, flags) ← match f.type with
    | .base k => do
      let c ← modifyGet fun im => im.primitiveClass k
      pure (c, f.flags.bits)
    | _ => do
      let r ← modifyGet fun im => im.nameRecord f.descriptor
      pure (r, f.flags.bits ||| Abi.unresolvedFlag)
  let nameRecord ← modifyGet fun im => im.nameRecord name
  return .compound [
    .address nameRecord,
    .address type,
    .const .char flags.toNat,
    .const .char f.type.mode.size,
    f.offset?.elim (.address e) fun o => .const .int o]

def methodEntries (trap : EntityId) : (members : List EntityId) → Emit (List Initializer)
  | [] => return []
  | e :: rest => do
    let entity := (← get).program.entityAt e
    match entity.method? with
    | some m => return (← methodEntry trap e entity.name m) :: (← methodEntries trap rest)
    | none => methodEntries trap rest

def fieldEntries : (fields : List EntityId) → Emit (List Initializer)
  | [] => return []
  | e :: rest => do
    let entity := (← get).program.entityAt e
    match entity.field? with
    | some f => return (← fieldEntry e entity.name f) :: (← fieldEntries rest)
    | none => fieldEntries rest

def table (name : String) (entries : List Initializer) : Emit (Option EntityId) :=
  match entries with
  | [] => return none
  | _ => do
    let e ← modifyGet fun im => im.newEntity (.global name .data .hidden (some (.compound entries)))
    return some e

def fieldsOf (p : Program) (members : List EntityId) (isStatic : Bool) : List EntityId :=
  members.filter fun e => ((p.fieldAt? e).map Field.isStatic) = some isStatic

/-- Fills the class object of a class. `classVTable?` is the dispatch table of the class of classes,
and `trap` stands for abstract methods. -/
def emit (classVTable? : Option EntityId) (trap : EntityId) (c : ClassId) : Emit Unit := do
  let p := (← get).program
  let info := p.classAt c
  match info.classObject? with
  | none => return
  | some classObject =>
    let tag := substituted '/' '_' info.name
    let statics := fieldsOf p info.members true
    let methods ← methodEntries trap info.members
    let fields ← fieldEntries (statics ++ fieldsOf p info.members false)
    let interfaces := info.interfaces.map fun i => .addressOrNull (p.classAt i).classObject?
    let methodTable ← table ("_MT_" ++ tag) methods
    let fieldTable ← table ("_FL_" ++ tag) fields
    let interfaceTable ← table ("_IF_" ++ tag) interfaces
    let name ← modifyGet fun im => im.nameRecord (substituted '/' '.' info.name)
    let values : List Initializer := [
      .addressOrNull classVTable?,
      .const .reference Abi.version,
      .address name,
      .const .char info.flags.bits.toNat,
      .addressOrNull (info.superclass?.bind fun s => (p.classAt s).classObject?),
      .const .int 0,
      .null,
      .null,
      .addressOrNull methodTable,
      .const .short methods.length,
      .const .short (info.vtableSize - Abi.headerSlots : Nat),
      .addressOrNull fieldTable,
      .const .int info.size,
      .const .short fields.length,
      .const .short statics.length,
      .addressOrNull info.vtable?,
      .null, .null, .null, .null, .null, .null,
      .null,
      .addressOrNull interfaceTable,
      .null,
      .const .short interfaces.length,
      .const .byte 0,
      .null,
      .const .short (info.superclass?.elim 0 fun s => (p.ancestry s).length : Nat),
      .null, .null, .null, .null, .null, .null, .null, .null, .null]
    modify fun im => im.modifyProgram fun p =>
      p.modifyEntity classObject fun e => { e with initializer? := some (.compound values) }

end JvmGraph.ClassObject
