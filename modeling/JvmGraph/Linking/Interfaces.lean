import JvmGraph.Linking.Members

/-!
# Interface methods

The runtime finds the method for a call through an interface by name and signature in the method table
of the receiver's own class. So every method of an interface is made a member of each class that
implements it: a method that the class declares is linked to it, and an inherited one, or one that an
abstract class leaves to its subclasses, gets a stand-in.
-/

namespace JvmGraph

open Load

namespace Program

def collectInterfaces (p : Program) : (fuel : Nat) → (seen work : List ClassId) → List ClassId
  | 0, seen, _ => seen
  | _ + 1, seen, [] => seen
  | fuel + 1, seen, i :: work =>
    if i ∈ seen then p.collectInterfaces fuel seen work
    else p.collectInterfaces fuel (seen ++ [i]) ((p.classAt i).interfaces ++ work)

/-- The interfaces that a class implements, directly or through other interfaces. Each class puts its
interfaces on the work list at most once, after those of `c`. -/
def allInterfaces (p : Program) (c : ClassId) : List ClassId :=
  let direct := (p.classAt c).interfaces
  let edges := p.classes.toList.foldr (fun info n => info.interfaces.length + n) 0
  p.collectInterfaces (direct.length + edges) [] direct

end Program

/-- The stand-in for a method of an interface: it leads to the inherited implementation, or else it is
abstract and has a slot of its own for subclasses to fill. -/
def standIn (p : Program) (c : ClassId) (interfaceMethod : EntityId) (implementation? : Option EntityId) :
    Option Entity := do
  let template := p.entityAt (implementation?.getD interfaceMethod)
  let m ← template.method?
  return {
    name := (p.entityAt interfaceMethod).name
    symbol := "inh__" ++ template.symbol
    owner? := some c
    kind := .method {
      descriptor := m.descriptor
      type := m.type
      flags := m.flags
      overwrites := implementation?.toList ++ [interfaceMethod]
      slot? := if implementation?.isSome then m.slot? else none
      binding := .dynamic
      excluded := implementation?.isSome
      isAbstract := implementation?.isNone
      isFinal := m.isFinal
      implementation? }
    visibility := .hidden }

def linkInterfaceMethod (c interface : ClassId) (e : EntityId) : Load Unit := do
  let p := (← get).program
  let entity := p.entityAt e
  match entity.method? with
  | none => return
  | some m =>
    if m.isStatic then return
    match p.memberWhere? c (Program.isInstanceMethod entity.name m.descriptor) with
    | some own => modifyProgram fun p =>
        p.modifyMethod own fun m => { m with overwrites := m.overwrites ++ [e] }
    | none =>
      let inherited? := (p.overridden? c entity.name m.descriptor).map p.realImplementation
      if inherited?.isNone && !(p.classAt c).isAbstract then
        throw (.missingInterfaceImplementation (p.classAt c).name entity.name
          (p.classAt interface).name)
      match standIn p c e inherited? with
      | some entity =>
        let _ ← onProgram fun p => p.addMember c entity
      | none => return

def linkInterface (c interface : ClassId) : (members : List EntityId) → Load Unit
  | [] => return
  | e :: rest => do
    linkInterfaceMethod c interface e
    linkInterface c interface rest

def linkInterfaces (c : ClassId) : (interfaces : List ClassId) → Load Unit
  | [] => return
  | i :: rest => do
    linkInterface c i ((← get).classAt i).members
    linkInterfaces c rest

end JvmGraph
