import JvmGraph.ClassFile.Basic
import JvmGraph.Descriptor
import JvmGraph.Graph.Basic

/-!
# Programs

The classes of a program and the entities that are emitted for them: members, dispatch tables, class
objects, constant data, and the functions of the runtime that are called. Both are numbered in the
order of their creation and never removed.
-/

namespace JvmGraph

open Text

inductive LoadState where
  /-- Only its name. -/
  | placeholder
  /-- Its class file. -/
  | loaded
  /-- Its members, its layout, its dispatch table and its class object. -/
  | finalized
  deriving DecidableEq, Repr, Inhabited

structure ClassInfo where
  name : String
  file? : Option ClassFile := none
  flags : AccessFlags := .none
  /-- Compiled against and never emitted. -/
  isExtern : Bool := false
  state : LoadState := .placeholder
  superclass? : Option ClassId := none
  /-- The interfaces that the class itself names. -/
  interfaces : List ClassId := []
  members : List EntityId := []
  /-- The hidden field for the dispatch table, shared by all classes below the root class. -/
  vptr? : Option EntityId := none
  vtable? : Option EntityId := none
  classObject? : Option EntityId := none
  /-- Slots of the dispatch table, its header included. -/
  vtableSize : Nat := 0
  /-- Bytes of an instance. -/
  size : Nat := 0
  /-- Whether the bodies of its methods were compiled. -/
  constructed : Bool := false
  /-- What its class constants were found to name. -/
  classLinks : List (UInt16 × ClassId) := []
  /-- What its member references were found to name. -/
  memberLinks : List (UInt16 × EntityId) := []
  deriving Inhabited

namespace ClassInfo

def isInterface (c : ClassInfo) : Bool := c.flags.isInterface
def isAbstract (c : ClassInfo) : Bool := c.flags.isAbstract
def isFinal (c : ClassInfo) : Bool := c.flags.isFinal

end ClassInfo

inductive Visibility where
  /-- Defined here and seen by other objects. -/
  | exported
  /-- Defined here and seen only here. -/
  | hidden
  /-- Defined elsewhere. -/
  | external
  deriving DecidableEq, Repr, Inhabited

/-- How the code of a method is found when it is called. -/
inductive Binding where
  | static
  /-- By a slot of the receiver's dispatch table. -/
  | dynamic
  /-- By name and signature in the receiver's class object. -/
  | interface
  deriving DecidableEq, Repr, Inhabited

structure Method where
  descriptor : String
  type : MethodType
  flags : AccessFlags
  /-- The methods of supertypes that this one implements. -/
  overwrites : List EntityId
  slot? : Option Nat := none
  binding : Binding
  /-- Gets no slot of a dispatch table. -/
  excluded : Bool
  isAbstract : Bool
  isFinal : Bool
  /-- For the stand-in of an inherited method: that method. -/
  implementation? : Option EntityId := none
  graph? : Option Graph := none
  deriving Inhabited

namespace Method

def isStatic (m : Method) : Bool := m.flags.isStatic

/-- Modes of the arguments as they are passed, the receiver first. -/
def paramModes (m : Method) : List Mode :=
  (if m.isStatic then [] else [.reference]) ++ m.type.params.map FieldType.mode

def resultMode? (m : Method) : Option Mode := m.type.result?.map FieldType.mode

end Method

structure Field where
  descriptor : String
  type : FieldType
  flags : AccessFlags
  /-- Place within an instance; static fields have none. -/
  offset? : Option Nat := none
  deriving DecidableEq, Repr, Inhabited

def Field.isStatic (f : Field) : Bool := f.flags.isStatic

inductive EntityKind where
  | method (method : Method)
  | field (field : Field)
  /-- Dispatch tables, class objects and constants. -/
  | data
  /-- A function of the runtime. -/
  | function (params : List Mode) (result? : Option Mode)
  deriving Inhabited

inductive Initializer where
  | null
  | const (mode : Mode) (value : Int)
  | address (entity : EntityId)
  | bytes (bytes : Bytes)
  | compound (parts : List Initializer)
  deriving Inhabited

def Initializer.addressOrNull : Option EntityId → Initializer
  | some e => address e
  | none => null

def Initializer.zero : Mode → Initializer
  | .reference => null
  | mode => const mode 0

structure Entity where
  name : String
  /-- The name that the linker sees. -/
  symbol : String
  /-- The class that a member belongs to; global data and functions have none. -/
  owner? : Option ClassId
  kind : EntityKind
  visibility : Visibility
  initializer? : Option Initializer := none
  deriving Inhabited

namespace Entity

def global (name : String) (kind : EntityKind) (visibility : Visibility)
    (initializer? : Option Initializer) : Entity :=
  { name, symbol := name, owner? := none, kind, visibility, initializer? }

def method? (e : Entity) : Option Method :=
  match e.kind with
  | .method m => some m
  | _ => none

def field? (e : Entity) : Option Field :=
  match e.kind with
  | .field f => some f
  | _ => none

end Entity

structure Program where
  classes : Array ClassInfo := #[]
  entities : Array Entity := #[]
  deriving Inhabited

namespace Program

def classAt (p : Program) (c : ClassId) : ClassInfo := p.classes.getD c.index { name := "" }

def entityAt (p : Program) (e : EntityId) : Entity :=
  p.entities.getD e.index (.global "" .data .external none)

def methodAt? (p : Program) (e : EntityId) : Option Method := (p.entityAt e).method?

def fieldAt? (p : Program) (e : EntityId) : Option Field := (p.entityAt e).field?

def classIds (p : Program) : List ClassId := (List.range p.classes.size).map ClassId.mk

def entityIds (p : Program) : List EntityId := (List.range p.entities.size).map EntityId.mk

def modifyClass (p : Program) (c : ClassId) (f : ClassInfo → ClassInfo) : Program :=
  { p with classes := p.classes.setIfInBounds c.index (f (p.classAt c)) }

def modifyEntity (p : Program) (e : EntityId) (f : Entity → Entity) : Program :=
  { p with entities := p.entities.setIfInBounds e.index (f (p.entityAt e)) }

def modifyMethod (p : Program) (e : EntityId) (f : Method → Method) : Program :=
  p.modifyEntity e fun entity =>
    match entity.kind with
    | .method m => { entity with kind := .method (f m) }
    | _ => entity

def modifyField (p : Program) (e : EntityId) (f : Field → Field) : Program :=
  p.modifyEntity e fun entity =>
    match entity.kind with
    | .field d => { entity with kind := .field (f d) }
    | _ => entity

def newClass (p : Program) (name : String) : ClassId × Program :=
  (⟨p.classes.size⟩, { p with classes := p.classes.push { name } })

def newEntity (p : Program) (e : Entity) : EntityId × Program :=
  (⟨p.entities.size⟩, { p with entities := p.entities.push e })

def addMember (p : Program) (owner : ClassId) (e : Entity) : EntityId × Program :=
  let (id, p) := p.newEntity { e with owner? := some owner }
  (id, p.modifyClass owner fun c => { c with members := c.members ++ [id] })

def chain (p : Program) : (fuel : Nat) → ClassId → List ClassId
  | 0, _ => []
  | fuel + 1, c => c :: ((p.classAt c).superclass?.elim [] (p.chain fuel))

/-- The superclass chain of a class, which it begins. Unless superclasses form a circle, no more
classes can follow each other than there are. -/
def ancestry (p : Program) (c : ClassId) : List ClassId := p.chain (p.classes.size + 1) c

def isSubclassOf (p : Program) (sub super : ClassId) : Bool := super ∈ p.ancestry sub

def memberWhere? (p : Program) (c : ClassId) (accept : Entity → Bool) : Option EntityId :=
  (p.classAt c).members.find? fun e => accept (p.entityAt e)

def followImplementation (p : Program) : (fuel : Nat) → EntityId → EntityId
  | 0, e => e
  | fuel + 1, e =>
    match (p.methodAt? e).bind Method.implementation? with
    | some real => p.followImplementation fuel real
    | none => e

/-- The method that has the code. A stand-in is made after what it stands for, so links end. -/
def realImplementation (p : Program) (e : EntityId) : EntityId :=
  p.followImplementation p.entities.size e

end Program

end JvmGraph
