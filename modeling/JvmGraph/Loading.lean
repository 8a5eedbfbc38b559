import JvmGraph.Abi.Image
import JvmGraph.ClassFile.Reader
import JvmGraph.Symbol.Mangle

/-!
# Loading

A world is an image together with the classes by name and the order in which their methods are to be
compiled. A class gets its number when its name is first looked up, before its file is found: a class
whose file is missing or malformed stays behind as a placeholder.
-/

namespace JvmGraph

open Text

structure Located where
  bytes : Bytes
  /-- Found among the classes that are compiled against only. -/
  isExtern : Bool
  deriving DecidableEq

structure ClassSource where
  /-- The file of the class with this binary name, if there is any. -/
  find : String → Except Error (Option Located)
  /-- No more classes than this can be loaded. -/
  size : Nat

def ClassSource.ofList (files : List (String × Located)) : ClassSource where
  find name := .ok (files.reverse.lookup name)
  size := files.length

structure World where
  image : Image := {}
  names : List (String × ClassId) := []
  /-- Classes that wait for their methods to be compiled. -/
  queue : List ClassId := []
  /-- Classes that were ever in the queue. -/
  queued : List ClassId := []
  /-- Classes whose finalization has begun and not ended. -/
  finalizing : List ClassId := []
  deriving Inhabited

namespace World

def program (w : World) : Program := w.image.program

def named? (w : World) (name : String) : Option ClassId := w.names.lookup name

def classAt (w : World) (c : ClassId) : ClassInfo := w.program.classAt c

def modifyProgram (w : World) (f : Program → Program) : World :=
  { w with image := w.image.modifyProgram f }

def modifyClass (w : World) (c : ClassId) (f : ClassInfo → ClassInfo) : World :=
  w.modifyProgram fun p => p.modifyClass c f

def enqueue (w : World) (c : ClassId) : World :=
  if c ∈ w.queued then w else { w with queue := w.queue ++ [c], queued := c :: w.queued }

def dequeue (w : World) : Option ClassId × World :=
  match w.queue with
  | [] => (none, w)
  | c :: rest => (some c, { w with queue := rest })

end World

/-- Steps on a world. What a step did stays done if it fails. -/
abbrev Load := EStateM Error World

namespace Load

def onImage {α : Type} (f : Image → α × Image) : Load α :=
  fun ⟨image, names, queue, queued, finalizing⟩ =>
    let (a, image) := f image
    .ok a ⟨image, names, queue, queued, finalizing⟩

def imageStep {α : Type} (x : EStateM Error Image α) : Load α :=
  fun ⟨image, names, queue, queued, finalizing⟩ =>
    match x image with
    | .ok a image => .ok a ⟨image, names, queue, queued, finalizing⟩
    | .error e image => .error e ⟨image, names, queue, queued, finalizing⟩

def onProgram {α : Type} (f : Program → α × Program) : Load α :=
  onImage fun ⟨program, functions, primitives, strings⟩ =>
    let (a, program) := f program
    (a, ⟨program, functions, primitives, strings⟩)

def modifyProgram (f : Program → Program) : Load Unit := onProgram fun p => ((), f p)

def modifyClass (c : ClassId) (f : ClassInfo → ClassInfo) : Load Unit :=
  modifyProgram fun p => p.modifyClass c f

/-- A computation that does not change the world. -/
def pureStep {α : Type} : Except Error α → Load α
  | .ok a => pure a
  | .error e => throw e

end Load

open Load

def objectClassName : String := "java/lang/Object"
def classClassName : String := "java/lang/Class"

def ClassSource.load (source : ClassSource) (name : String) : Except Error (ClassFile × Bool) := do
  match ← source.find name with
  | none => throw (.classNotFound name)
  | some located =>
    let file ← ClassFile.parse located.bytes
    let defined ← file.name
    if defined ≠ name then throw (.otherClassFound name defined)
    return (file, located.isExtern)

def declareTables (c : ClassId) : Load Unit := do
  let info := (← get).classAt c
  let declare (name symbol : String) : Load EntityId := onProgram fun p => p.newEntity {
    name, symbol
    owner? := some c
    kind := .data
    visibility := if info.isExtern then .external else .exported }
  if !info.isInterface then
    let symbol ← pureStep (Symbol.mangleVTable info.name)
    let vtable ← declare "vtable" symbol
    modifyClass c fun info => { info with vtable? := some vtable }
  let symbol ← pureStep (Symbol.mangleClassObject info.name)
  let classObject ← declare Symbol.classObjectName symbol
  modifyClass c fun info => { info with classObject? := some classObject }

def classNamed (source : ClassSource) (name : String) : Load ClassId := do
  match (← get).named? name with
  | some c => return c
  | none =>
    let c ← onProgram fun p => p.newClass name
    modify fun w => { w with names := w.names ++ [(name, c)] }
    let (file, isExtern) ← pureStep (source.load name)
    modifyClass c fun info =>
      { info with file? := some file, flags := file.flags, isExtern, state := .loaded }
    declareTables c
    return c

def classFileOf (c : ClassId) : Load ClassFile := do
  let info := (← get).classAt c
  match info.file? with
  | some file => return file
  | none => throw (.classNotFound info.name)

def typeOf (source : ClassSource) : FieldType → Load TypeRef
  | .base k => return .prim k
  | .object name => return .ofClass (← classNamed source name)
  | .array element => return .array (← typeOf source element)

def classObjectOf? : TypeRef → Load (Option EntityId)
  | .ofClass c => return ((← get).classAt c).classObject?
  | .prim k => some <$> onImage fun im => im.primitiveClass k
  | .array _ => return none

end JvmGraph
