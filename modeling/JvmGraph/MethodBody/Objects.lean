import JvmGraph.MethodBody.Basic

/-!
# Operations on classes and objects

The instructions that refer to constants, fields, methods and classes by an index into the constant
pool.
-/

namespace JvmGraph.Body

open Load

variable (ctx : MethodContext)

def resolveClass (index : UInt16) : Body TypeRef :=
  onWorld (classRef ctx.source ctx.owner ctx.file index)

def resolveMember (index : UInt16) (kind : RefKind) : Body EntityId :=
  onWorld (memberEntity ctx.source ctx.owner ctx.file index kind)

def requireClassObject (type : TypeRef) (what : Unsupported) : Body EntityId := do
  match ← onWorld (classObjectOf? type) with
  | some e => return e
  | none => refuse what

def pooledConstant (index : UInt16) : Body NodeId := do
  match ← onWorld (pureStep (ctx.file.pool.get index)) with
  | .integer i => onFrame (Frame.constInt i.toInt)
  | .float bits => onFrame (Frame.onGraph fun g => g.constant .float bits.toUInt64)
  | .long l => onFrame (Frame.onGraph fun g => g.constant .long l.toUInt64)
  | .double bits => onFrame (Frame.onGraph fun g => g.constant .double bits)
  | .string text =>
    let bytes ← onWorld (pureStep (ctx.file.pool.bytes text))
    let literal ← onWorld (onImage fun im => im.literal bytes)
    let place ← onFrame (Frame.address literal)
    callRuntimeValue .newString [place] .reference
  | .classRef _ =>
    let type ← resolveClass ctx index
    let classObject ← requireClassObject type .arrayClassLiteral
    onFrame (Frame.address classObject)
  | _ => throw (.unexpectedConstant index .loadable)

/-! ## Fields -/

def resolveField (index : UInt16) : Body (EntityId × Mode) := do
  let e ← resolveMember ctx index .field
  match (← get).world.program.fieldAt? e with
  | some f => return (e, f.type.mode)
  | none => throw (.unexpectedConstant 0 .field)

def getStatic (index : UInt16) : Body Unit := do
  let (e, mode) ← resolveField ctx index
  requireInitOf ctx e
  let place ← onFrame (Frame.address e)
  let value ← onFrame (Frame.load place mode)
  onFrame (Frame.pushLoaded value mode)

def putStatic (index : UInt16) : Body Unit := do
  let (e, mode) ← resolveField ctx index
  let value ← onFrame (Frame.pop mode.arithmetic)
  requireInitOf ctx e
  let place ← onFrame (Frame.address e)
  let value ← onFrame (Frame.convert value mode)
  onFrame (Frame.store place value)

def getField (index : UInt16) : Body Unit := do
  let (e, mode) ← resolveField ctx index
  let object ← onFrame (Frame.pop .reference)
  let place ← onFrame (Frame.addNode (.sel e) .reference [object])
  let value ← onFrame (Frame.load place mode)
  onFrame (Frame.pushLoaded value mode)

def putField (index : UInt16) : Body Unit := do
  let (e, mode) ← resolveField ctx index
  let value ← onFrame (Frame.pop mode.arithmetic)
  let object ← onFrame (Frame.pop .reference)
  let place ← onFrame (Frame.addNode (.sel e) .reference [object])
  let value ← onFrame (Frame.convert value mode)
  onFrame (Frame.store place value)

/-! ## Methods -/

/-- Pops arguments of the given modes, the last one first; gives them in that order. -/
def popArgs : (reversed : List Mode) → Body (List NodeId)
  | [] => return []
  | mode :: rest => do
    let value ← onFrame (Frame.pop mode.arithmetic)
    let value ← onFrame (Frame.convert value mode)
    return value :: (← popArgs rest)

def callee (form : CallForm) (e : EntityId) (args : List NodeId) : Body NodeId := do
  let target := (← get).world.program.realImplementation e
  match form with
  | .static =>
    requireInitOf ctx e
    onFrame (Frame.address target)
  | .special => onFrame (Frame.address target)
  | _ =>
    let memory ← onFrame (Frame.build Ssa.getStore)
    onFrame (Frame.addNode (.methodSel e) .reference (memory :: args.take 1))

def invokeMethod (form : CallForm) (kind : RefKind) (index : UInt16) : Body Unit := do
  let e ← resolveMember ctx index kind
  let entity := (← get).world.program.entityAt e
  match entity.method? with
  | none => throw (.unexpectedConstant index .method)
  | some m =>
    if m.isStatic ≠ decide (form = .static) then refuse (.callForm form.text entity.name)
    let args := (← popArgs m.paramModes.reverse).reverse
    let code ← callee ctx form e args
    let call ← onFrame (Frame.memoryOp .call (code :: args))
    match m.resultMode? with
    | none => return
    | some mode =>
      let value ← onFrame (Frame.build (Ssa.addProj call mode Projection.result))
      onFrame (Frame.pushLoaded value mode)

def invoke (form : CallForm) (index : UInt16) : Body Unit :=
  match form with
  | .dynamic => refuse .invokeDynamic
  | .interface _ => invokeMethod ctx form .interfaceMethod index
  | _ => invokeMethod ctx form .method index

/-! ## Objects -/

def alloc (type : TypeRef) (count : NodeId) : Body Unit := do
  let object ← onFrame (Frame.memoryValue (.alloc type) [count] .reference)
  onFrame (Frame.push object)

def newObject (index : UInt16) : Body Unit := do
  let type ← resolveClass ctx index
  match type with
  | .ofClass c => requireInit ctx c
  | _ => refuse .newOfNonClass
  let one ← onFrame (Frame.onGraph fun g => g.constant .unsigned 1)
  alloc type one

def elementType : ArrayElement → Body TypeRef
  | .primitive k => return .prim k
  | .named index => do
    let type ← resolveClass ctx index
    let _ ← requireClassObject type .arrayOfArrays
    return type

def newArray (element : ArrayElement) (dimensions : Nat) : Body Unit := do
  if 1 < dimensions then refuse .multiArray
  let type ← elementType ctx element
  let count ← onFrame (Frame.pop .int)
  let count ← onFrame (Frame.convert count .unsigned)
  alloc (.array type) count

def arrayLength : Frame.Step Unit := do
  let array ← Frame.pop .reference
  Frame.push (← Frame.memoryValue .arrayLength [array] .int)

def checkCast (index : UInt16) : Body Unit := do
  let type ← resolveClass ctx index
  let classObject ← requireClassObject type .arrayTypeTest
  let object ← onFrame (Frame.pop .reference)
  let place ← onFrame (Frame.address classObject)
  let value ← callRuntimeValue .checkCast [place, object] .reference
  onFrame (Frame.push value)

def instanceOf (index : UInt16) : Body Unit := do
  let type ← resolveClass ctx index
  let _ ← requireClassObject type .arrayTypeTest
  let object ← onFrame (Frame.pop .reference)
  let outcome ← onFrame (Frame.memoryValue (.instanceOf type) [object] .bool)
  onFrame (Frame.pushLoaded outcome .bool)

def throwObject : Body Unit := do
  let _ ← onFrame (Frame.pop .reference)
  let _ ← callRuntime .abort []
  let memory ← onFrame (Frame.build Ssa.getStore)
  onFrame (Frame.build (Ssa.modifyGraph fun g => g.keepAlive memory))
  endBlock

end JvmGraph.Body
