import JvmGraph.Mode

/-!
# Binary interface of the runtime

Sizes and offsets that the class library fixes, and the functions that compiled code calls in it.
-/

namespace JvmGraph.Abi

def pointerSize : Nat := 4

/-- A dispatch table begins with the class object and a descriptor for the garbage collector. -/
def headerSlots : Nat := 2

def arrayLengthOffset : Nat := 4

def arrayDataOffset : Nat := 8

/-- The version number that a compiled class object carries. -/
def version : Nat := 400000

/-- Set in the flags of a field entry whose type is given by a descriptor and not by a class object. -/
def unresolvedFlag : UInt16 := 0x8000

/-- What stands in a method entry for the slot of a method without one. -/
def noSlot : Nat := 0xffff

end Abi

inductive Flavour where
  /-- Objects are allocated with `calloc`. -/
  | simple
  /-- Objects are allocated by the class library. -/
  | gcj
  deriving DecidableEq, Repr

inductive RuntimeFunction where
  | initClass | allocObject | newPrimArray | newObjectArray | newString | checkCast | isInstanceOf
  | lookupInterfaceMethod | throwAbstractMethodError | abort | calloc
  deriving DecidableEq, Repr

namespace RuntimeFunction

def all : List RuntimeFunction :=
  [initClass, allocObject, newPrimArray, newObjectArray, newString, checkCast, isInstanceOf,
    lookupInterfaceMethod, throwAbstractMethodError, abort, calloc]

def symbol : RuntimeFunction → String
  | initClass => "_Jv_InitClass"
  | allocObject => "_Jv_AllocObjectNoInitNoFinalizer"
  | newPrimArray => "_Jv_NewPrimArray"
  | newObjectArray => "_Jv_NewObjectArray"
  | newString => "_Jv_NewStringUTF"
  | checkCast => "_Jv_CheckCast"
  | isInstanceOf => "_Jv_IsInstanceOf"
  | lookupInterfaceMethod => "_Jv_LookupInterfaceMethod"
  | throwAbstractMethodError => "_Jv_ThrowAbstractMethodError"
  | abort => "abort"
  | calloc => "calloc"

def params : RuntimeFunction → List Mode
  | initClass | allocObject | newString => [.reference]
  | newPrimArray => [.reference, .int]
  | newObjectArray => [.int, .reference, .reference]
  | checkCast | isInstanceOf => [.reference, .reference]
  | lookupInterfaceMethod => [.reference, .reference, .reference]
  | throwAbstractMethodError | abort => []
  | calloc => [.unsigned, .unsigned]

def result? : RuntimeFunction → Option Mode
  | initClass | throwAbstractMethodError | abort => none
  | isInstanceOf => some .bool
  | _ => some .reference

end RuntimeFunction

def Kind.classObject : Kind → String
  | .int => "_Jv_intClass"
  | .long => "_Jv_longClass"
  | .float => "_Jv_floatClass"
  | .double => "_Jv_doubleClass"
  | .byte => "_Jv_byteClass"
  | .char => "_Jv_charClass"
  | .short => "_Jv_shortClass"
  | .boolean => "_Jv_booleanClass"
  | .void | .object => "_Jv_voidClass"

def startupStub (classObject : String) : String :=
  "extern void JvRunMain(void* klass, int argc, const char **argv);\n"
    ++ "extern void *" ++ classObject ++ ";\n"
    ++ "int main(int argc, const char **argv) \x7b JvRunMain(&" ++ classObject
    ++ ", argc, argv); return 0; \x7d\n"

end JvmGraph
