import JvmGraph.Graph.Normalize
import JvmGraph.Loading

/-!
# Lowering

The nodes that speak of objects are replaced by loads, stores, address arithmetic and calls of the
runtime: field addresses, array lengths, allocations, type tests, and the selection of the code of a
method. What is put in takes the memory state of what it replaces and hands on its own.
-/

namespace JvmGraph

structure Uses where
  /-- For each node its live projections, with their numbers. -/
  projections : Array (List (NodeId × Nat))
  /-- For each node the live calls that have it as their callee. -/
  calls : Array (List NodeId)
  deriving Inhabited

structure Lowering where
  image : Image
  graph : Graph
  /-- Uses of the nodes that are lowered. Nothing that lowering puts in is such a use. -/
  uses : Uses
  deriving Inhabited

/-- Steps of lowering. What a step did stays done if it fails. -/
abbrev Lower := EStateM Error Lowering

namespace Graph

def noteUse (g : Graph) (n : NodeId) (uses : Uses) : Uses :=
  match g.node n with
  | ⟨.proj number, _, _, tuple :: _⟩ =>
    { uses with projections := uses.projections.modify tuple.index fun ps => (n, number) :: ps }
  | ⟨.call, _, _, _ :: code :: _⟩ =>
    { uses with calls := uses.calls.modify (g.resolve code).index fun cs => n :: cs }
  | _ => uses

def uses (g : Graph) : Uses :=
  g.liveNodes.foldr g.noteUse
    ⟨Array.replicate g.nodes.size [], Array.replicate g.nodes.size []⟩

def replaceTuple (g : Graph) (projections : List (NodeId × Nat)) (memory result : NodeId) : Graph :=
  projections.foldl (fun g (p, number) =>
    g.exchange p (if number = Projection.memory then memory else result)) g

def rethreadCall (memory : NodeId) (g : Graph) (call : NodeId) : Graph :=
  let node := g.node call
  g.setNode call { node with inputs := memory :: node.inputs.drop 1 }

end Graph

namespace Lower

def onGraph {α : Type} (f : Graph → α × Graph) : Lower α := fun ⟨image, graph, uses⟩ =>
  let (a, graph) := f graph
  .ok a ⟨image, graph, uses⟩

def modifyGraph (f : Graph → Graph) : Lower Unit := onGraph fun g => ((), f g)

def onImage {α : Type} (f : Image → α × Image) : Lower α := fun ⟨image, graph, uses⟩ =>
  let (a, image) := f image
  .ok a ⟨image, graph, uses⟩

def program : Lower Program := return (← get).image.program

def refuse {α : Type} (what : Unsupported) : Lower α := throw (.unsupported 0 what)

def addAt (place : NodeId) (op : Op) (mode : Mode) (inputs : List NodeId) : Lower NodeId :=
  onGraph fun g => g.add (g.node place).block op mode inputs

def address (e : EntityId) : Lower NodeId := onGraph fun g => g.address e

def constUnsigned (n : Nat) : Lower NodeId := onGraph fun g => g.constant .unsigned (UInt64.ofNat n)

def constInt (n : Nat) : Lower NodeId := onGraph fun g => g.constInt n

structure Inserted where
  node : NodeId
  memory : NodeId
  result : NodeId

def insert (place : NodeId) (op : Op) (inputs : List NodeId) (mode : Mode) : Lower Inserted := do
  let node ← addAt place op .tuple inputs
  let memory ← onGraph fun g => g.proj node .memory Projection.memory
  let result ← onGraph fun g => g.proj node mode Projection.result
  return { node, memory, result }

def loadPointer (place memory source : NodeId) : Lower Inserted :=
  insert place (.load .reference) [memory, source] .reference

def store (place memory target value : NodeId) : Lower NodeId := do
  let node ← addAt place .store .tuple [memory, target, value]
  onGraph fun g => g.proj node .memory Projection.memory

def functionAddress (f : RuntimeFunction) : Lower NodeId := do
  let e ← onImage fun im => im.function f
  address e

def call (place memory : NodeId) (f : RuntimeFunction) (args : List NodeId) : Lower Inserted := do
  let callee ← functionAddress f
  insert place .call (memory :: callee :: args) .reference

def classObject (type : TypeRef) : Lower EntityId := do
  match type with
  | .ofClass c =>
    let info := (← program).classAt c
    match info.classObject? with
    | some e => return e
    | none => throw (.classNotFound info.name)
  | .prim k => onImage fun im => im.primitiveClass k
  | .array _ => refuse (.arrayClassObject type.text)

def operands (n : NodeId) : Lower (NodeId × NodeId) := do
  let node := (← get).graph.node n
  return (node.inputs.getD 0 n, node.inputs.getD 1 n)

def become (n : NodeId) (op : Op) (inputs : List NodeId) : Lower Unit :=
  modifyGraph fun g => g.setNode n { g.node n with op, inputs }

/-! ## Allocation -/

def storeVTable (place memory object : NodeId) (vtable? : Option EntityId) : Lower NodeId := do
  match vtable? with
  | some v => store place memory object (← address v)
  | none => return memory

def callocObject (n memory : NodeId) (c : ClassId) : Lower Inserted := do
  let info := (← program).classAt c
  let one ← constUnsigned 1
  let size ← constUnsigned info.size
  let object ← call n memory .calloc [one, size]
  let memory ← storeVTable n object.memory object.result info.vtable?
  return { object with memory }

/-- The dispatch table of the root class, which arrays have too. -/
def objectVTable? : Lower (Option EntityId) := do
  let p ← program
  return (p.classes.toList.find? fun info => info.name = objectClassName).bind ClassInfo.vtable?

def callocArray (n memory count : NodeId) (element : TypeRef) : Lower Inserted := do
  let one ← constUnsigned 1
  let elementSize ← constUnsigned element.size
  let header ← constUnsigned Abi.arrayDataOffset
  let data ← addAt n .mul .unsigned [count, elementSize]
  let total ← addAt n .add .unsigned [data, header]
  let array ← call n memory .calloc [one, total]
  let memory ← storeVTable n array.memory array.result (← objectVTable?)
  let offset ← constInt Abi.arrayLengthOffset
  let place ← addAt n .add .reference [array.result, offset]
  let length ← addAt n .conv .int [count]
  let memory ← store n memory place length
  return { array with memory }

def libraryArray (n memory count : NodeId) (element : TypeRef) : Lower Inserted := do
  let count ← addAt n .conv .int [count]
  let elementClass ← address (← classObject element)
  match element with
  | .prim _ => call n memory .newPrimArray [elementClass, count]
  | _ =>
    let null ← onGraph Graph.null
    call n memory .newObjectArray [count, elementClass, null]

def allocate (flavour : Flavour) (n memory count : NodeId) (type : TypeRef) : Lower Inserted :=
  match flavour, type with
  | .simple, .ofClass c => callocObject n memory c
  | .simple, .array element => callocArray n memory count element
  | .gcj, .ofClass _ => do
    let place ← address (← classObject type)
    call n memory .allocObject [place]
  | .gcj, .array element => libraryArray n memory count element
  | _, .prim k => refuse (.primitiveAllocation k)

def lowerAlloc (flavour : Flavour) (n : NodeId) (type : TypeRef) : Lower Unit := do
  let (memory, count) ← operands n
  let made ← allocate flavour n memory count type
  let projections := (← get).uses.projections.getD n.index []
  modifyGraph fun g => g.replaceTuple projections made.memory made.result
  modifyGraph fun g => g.exchange n made.node

/-! ## Method selection -/

def rethreadCalls (n memory : NodeId) : Lower Unit := do
  let calls := (← get).uses.calls.getD n.index []
  modifyGraph fun g => calls.foldl (Graph.rethreadCall memory) g

def lookupMethod (n : NodeId) (name descriptor : String) : Lower NodeId := do
  let (memory, receiver) ← operands n
  let vtable ← loadPointer n memory receiver
  let receiverClass ← loadPointer n vtable.memory vtable.result
  let nameRecord ← onImage fun im => im.nameRecord name
  let descriptorRecord ← onImage fun im => im.nameRecord descriptor
  let nameAddress ← address nameRecord
  let descriptorAddress ← address descriptorRecord
  let code ← call n receiverClass.memory .lookupInterfaceMethod
    [receiverClass.result, nameAddress, descriptorAddress]
  rethreadCalls n code.memory
  return code.result

def loadSlot (n : NodeId) (slot : Nat) : Lower NodeId := do
  let (memory, receiver) ← operands n
  let vtable ← loadPointer n memory receiver
  let offset ← constInt (slot * Abi.pointerSize)
  let place ← addAt n .add .reference [vtable.result, offset]
  let code ← loadPointer n vtable.memory place
  rethreadCalls n code.memory
  return code.result

def methodCode (n : NodeId) (e : EntityId) (name : String) (m : Method) : Lower NodeId :=
  match m.binding, m.slot? with
  | .interface, _ => lookupMethod n name m.descriptor
  | .dynamic, some slot => loadSlot n slot
  | _, _ => address (m.implementation?.getD e)

def lowerMethodSel (n : NodeId) (e : EntityId) : Lower Unit := do
  let entity := (← program).entityAt e
  match entity.method? with
  | none => refuse (.callOfNonMethod entity.name)
  | some m =>
    let target ← methodCode n e entity.name m
    modifyGraph fun g => g.exchange n target

/-! ## The other nodes -/

def lowerSel (n : NodeId) (e : EntityId) : Lower Unit := do
  let entity := (← program).entityAt e
  match entity.field?.bind Field.offset? with
  | none => refuse (.instanceAccess entity.name)
  | some offset =>
    let c ← constInt offset
    let inputs := ((← get).graph.node n).inputs
    become n .add (inputs ++ [c])

def lowerArrayLength (n : NodeId) : Lower Unit := do
  let (memory, array) ← operands n
  let c ← constInt Abi.arrayLengthOffset
  let place ← addAt n .add .reference [array, c]
  become n (.load .int) [memory, place]

def lowerInstanceOf (n : NodeId) (type : TypeRef) : Lower Unit := do
  let (memory, object) ← operands n
  let place ← address (← classObject type)
  let callee ← functionAddress .isInstanceOf
  become n .call [memory, callee, object, place]

def lowerNode (flavour : Flavour) (n : NodeId) : Lower Unit := do
  match ((← get).graph.node n).op with
  | .sel e => lowerSel n e
  | .arrayLength => lowerArrayLength n
  | .instanceOf type => lowerInstanceOf n type
  | .alloc type => lowerAlloc flavour n type
  | .methodSel e => lowerMethodSel n e
  | _ => return

def lowerNodes (flavour : Flavour) : List NodeId → Lower Unit
  | [] => return
  | n :: rest => do
    lowerNode flavour n
    lowerNodes flavour rest

end Lower

def Op.isObjectOp : Op → Bool
  | alloc _ | methodSel _ | arrayLength | instanceOf _ | sel _ => true
  | _ => false

def lowerGraph (flavour : Flavour) : Lower Unit := do
  let g := (← get).graph
  Lower.lowerNodes flavour (g.liveNodes.filter fun n => (g.node n).op.isObjectOp)
  Lower.modifyGraph Graph.normalize

namespace Image

def lowerEntity (flavour : Flavour) (e : EntityId) : EStateM Error Image Unit := fun im =>
  match (im.program.methodAt? e).bind Method.graph? with
  | none => .ok () im
  | some graph =>
    let taken := im.modifyProgram fun p => p.modifyMethod e fun m => { m with graph? := none }
    match lowerGraph flavour ⟨taken, graph, graph.uses⟩ with
    | .ok _ ⟨im, graph, _⟩ =>
      .ok () (im.modifyProgram fun p => p.modifyMethod e fun m => { m with graph? := some graph })
    | .error err ⟨im, _, _⟩ => .error err im

def lowerEntities (flavour : Flavour) : List EntityId → EStateM Error Image Unit
  | [] => return
  | e :: rest => do
    lowerEntity flavour e
    lowerEntities flavour rest

def lower (flavour : Flavour) : EStateM Error Image Unit := do
  lowerEntities flavour (← get).program.entityIds

end Image

end JvmGraph
