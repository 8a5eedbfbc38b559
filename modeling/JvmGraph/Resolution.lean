import JvmGraph.Linking.Finalize

/-!
# Resolution

What the constants of a class file refer to. A class or member that was found for a constant is noted
with the class, and the note answers later questions about that constant.
-/

namespace JvmGraph

open Load

inductive MemberSort where
  | field | method
  deriving DecidableEq, Repr

def RefKind.sort : RefKind → MemberSort
  | field => .field
  | method | interfaceMethod => .method

def MemberSort.accepts (sort : MemberSort) (name descriptor : String) (e : Entity) : Bool :=
  match sort, e.kind with
  | field, .field f => e.name = name && f.descriptor = descriptor
  | method, .method m => e.name = name && m.descriptor = descriptor
  | _, _ => false

namespace Program

def searchMember (p : Program) (accept : Entity → Bool) : (depth : Nat) → ClassId → Option EntityId
  | 0, _ => none
  | depth + 1, c =>
    let info := p.classAt c
    (p.memberWhere? c accept).or
      ((info.superclass?.bind fun s => p.searchMember accept depth s).or
        (info.interfaces.findSome? fun i => p.searchMember accept depth i))

/-- The member that a class has or inherits. Unless supertypes form a circle, no more classes can follow
each other than there are. -/
def member? (p : Program) (c : ClassId) (sort : MemberSort) (name descriptor : String) :
    Option EntityId :=
  p.searchMember (sort.accepts name descriptor) (p.classes.size + 1) c

end Program

def classRef (source : ClassSource) (c : ClassId) (file : ClassFile) (index : UInt16) : Load TypeRef := do
  let _ ← pureStep (file.pool.get index)
  match ((← get).classAt c).classLinks.lookup index with
  | some found => return .ofClass found
  | none =>
    let name ← pureStep (file.pool.className index)
    if name.toList.head? = some '[' then
      typeOf source (← pureStep (FieldType.parse name))
    else
      let found ← classNamed source name
      finalizeClass source found
      modifyClass c fun info => { info with classLinks := info.classLinks ++ [(index, found)] }
      return .ofClass found

def memberOwner (source : ClassSource) : TypeRef → Load ClassId
  | .ofClass c => return c
  | _ => do
    let object ← classNamed source objectClassName
    finalizeClass source object
    return object

def memberEntity (source : ClassSource) (c : ClassId) (file : ClassFile) (index : UInt16)
    (kind : RefKind) : Load EntityId := do
  let _ ← pureStep (file.pool.get index)
  match ((← get).classAt c).memberLinks.lookup index with
  | some found => return found
  | none =>
    let ref ← pureStep (file.pool.memberRef index kind)
    let owner ← memberOwner source (← classRef source c file ref.classIndex)
    match (← get).program.member? owner kind.sort ref.name ref.descriptor with
    | none => throw (.missingMember ref.className ref.name ref.descriptor)
    | some found =>
      modifyClass c fun info => { info with memberLinks := info.memberLinks ++ [(index, found)] }
      return found

end JvmGraph
