import JvmGraph.Loading

/-!
# Members

The fields and methods of a class become entities of the program in the order of its class file. What
supertypes declare decides how a method is bound: a method with the name and descriptor of an inherited
one overrides it.
-/

namespace JvmGraph

open Load

namespace Program

def isInstanceMethod (name descriptor : String) (e : Entity) : Bool :=
  match e.method? with
  | some m => e.name = name && m.descriptor = descriptor && !m.isStatic
  | none => false

def isOverridable (name descriptor : String) (e : Entity) : Bool :=
  isInstanceMethod name descriptor e && !(e.method?.any fun m => m.flags.isPrivate)

def overridden? (p : Program) (c : ClassId) (name descriptor : String) : Option EntityId := do
  let super ← (p.classAt c).superclass?
  (p.ancestry super).findSome? fun a => p.memberWhere? a (isOverridable name descriptor)

end Program

def fieldEntity (info : ClassInfo) (c : ClassId) (f : Member) : Except Error Entity := do
  let file ← info.file?.elim (.error (.classNotFound info.name)) .ok
  let name ← file.nameOf f
  let descriptor ← file.descriptorOf f
  let type ← FieldType.parse descriptor
  let symbol ← Symbol.mangleMember info.name name .field
  let (visibility, initializer?) := match f.flags.isStatic, info.isExtern with
    | true, false => (Visibility.exported, some (.zero type.mode))
    | true, true => (Visibility.external, none)
    | false, _ => (Visibility.exported, none)
  return {
    name, symbol, visibility, initializer?
    owner? := some c
    kind := .field { descriptor, type, flags := f.flags } }

def methodEntity (p : Program) (c : ClassId) (m : Member) : Except Error Entity := do
  let info := p.classAt c
  let file ← info.file?.elim (.error (.classNotFound info.name)) .ok
  let name ← file.nameOf m
  let descriptor ← file.descriptorOf m
  let type ← MethodType.parse descriptor
  let isStatic := m.flags.isStatic
  let isPrivate := m.flags.isPrivate
  let overwrites :=
    if isStatic || isPrivate || name.toList.head? = some '<' then []
    else (p.overridden? c name descriptor).toList
  let isFinal := m.flags.isFinal || info.isFinal
  let excluded := isStatic || isPrivate || name = "<init>" || (isFinal && overwrites.isEmpty)
  let binding : Binding :=
    if excluded || isFinal then .static
    else if info.isInterface then .interface
    else .dynamic
  let isAbstract := m.flags.isAbstract
  let symbol ← Symbol.mangleMember info.name name (.method type isStatic)
  return {
    name, symbol
    owner? := some c
    kind := .method {
      descriptor, type, flags := m.flags, overwrites, binding, excluded, isAbstract, isFinal }
    visibility :=
      if isAbstract || m.flags.isNative || info.isExtern then .external else .exported }

def addFields (c : ClassId) : List Member → Load Unit
  | [] => return
  | f :: rest => do
    let entity ← pureStep (fieldEntity ((← get).classAt c) c f)
    let _ ← onProgram fun p => p.addMember c entity
    addFields c rest

def addMethods (c : ClassId) : List Member → Load Unit
  | [] => return
  | m :: rest => do
    let entity ← pureStep (methodEntity (← get).program c m)
    let _ ← onProgram fun p => p.addMember c entity
    addMethods c rest

def addVptr (c : ClassId) : Load Unit := do
  let name := ((← get).classAt c).name
  let vptr ← onProgram fun p => p.newEntity {
    name := "@vptr"
    symbol := name ++ "@vptr"
    owner? := some c
    kind := .field {
      descriptor := (FieldType.object name).text
      type := .object name
      flags := .hiddenMember
      offset? := some 0 }
    visibility := .hidden }
  modifyClass c fun info => { info with vptr? := some vptr }

end JvmGraph
