import JvmGraph.Kind
import JvmGraph.Text.Quoted

/-!
# Faults

Every cause that stops a compilation. None is recoverable: nothing is written for a class that could
not be compiled in full. `Error.message` is the text for people, `Error.inspect` the text that names
the cause and its parts. A breakdown is no fault of the input that could be named: it ends a run at
once, and nothing is reported.
-/

namespace JvmGraph

open Text

inductive FileFault where
  | notFound | notADirectory | isADirectory | nameTooLong | nulInName
  deriving DecidableEq, Repr

inductive ConstantRole where
  | utf8 | classReference | nameAndType | fieldReference | methodReference | interfaceMethodReference
  | loadable | field | method
  deriving DecidableEq, Repr

inductive Unsupported where
  /-- A stack slot was shuffled before anything was put into it. -/
  | unknownSlot
  | arrayClassLiteral
  | valueFromVoid
  | invokeDynamic
  /-- A call of the given form names a method that is static where the form is not, or conversely. -/
  | callForm (form method : String)
  | newOfNonClass
  | multiArray
  | arrayOfArrays
  | arrayTypeTest
  /-- A switch or a subroutine instruction. -/
  | instruction (text : String)
  | fallsOffTheEnd
  | arrayClassObject (type : String)
  | primitiveAllocation (kind : Kind)
  | callOfNonMethod (name : String)
  | instanceAccess (name : String)
  deriving DecidableEq, Repr

inductive Breakdown where
  /-- A dispatch table is built over a superclass that has none, so its two header slots do not exist. -/
  | headlessVTable
  /-- A method table has a method whose slot lies within the header of the dispatch table. -/
  | slotInHeader
  /-- The slots of the parameters of a method do not fit into 16 bits. -/
  | parameterSlots
  /-- The number of entries of a jump table does not fit into 32 bits. -/
  | jumpTableSize
  /-- The place where a name of a symbol ends does not fit into 64 bits. -/
  | nameEnd
  deriving DecidableEq, Repr

inductive Error where
  | io (fault : FileFault)
  -- malformed class files
  | badMagic (magic : UInt32)
  | unsupportedVersion (major minor : UInt16)
  | truncated
  | trailingBytes (count : Nat)
  | unsupportedConstantTag (tag : UInt8)
  | badCodeLength (length codeLength : UInt32)
  -- references that do not fit together
  | invalidConstantIndex (index : UInt16)
  | unexpectedConstant (index : UInt16) (expected : ConstantRole)
  | invalidDescriptor (text : String)
  | classNotFound (name : String)
  /-- The file found for `name` defines the class `defined`. -/
  | otherClassFound (name defined : String)
  | missingMember (owner name descriptor : String)
  | missingInterfaceImplementation (owner method interface : String)
  | missingCode (method : String)
  -- method bodies
  | stackUnderflow (pc : Nat)
  | stackOverflow (pc : Nat)
  | localOutOfRange (pc : Nat) (index : UInt16)
  | stackPointerMismatch (pc : Nat)
  | slotArity (pc : Nat)
  | unknownArrayCode (code : UInt8)
  | unsupported (pc : Nat) (what : Unsupported)
  | invalidBranchTarget (pc : Nat) (target : Int)
  -- linkage symbols
  | compressionTableFull
  | invalidSymbol (symbol : String)
  | breakdown (what : Breakdown)
  /-- A walk over links that form a circle does not come to an end. -/
  | endless
  deriving DecidableEq, Repr

namespace FileFault

def code? : FileFault → Option Nat
  | notFound => some 2
  | notADirectory => some 20
  | isADirectory => some 21
  | nameTooLong => some 36
  | nulInName => none

def kind : FileFault → String
  | notFound => "NotFound"
  | notADirectory => "NotADirectory"
  | isADirectory => "IsADirectory"
  | nameTooLong => "InvalidFilename"
  | nulInName => "InvalidInput"

def text : FileFault → String
  | notFound => "No such file or directory"
  | notADirectory => "Not a directory"
  | isADirectory => "Is a directory"
  | nameTooLong => "File name too long"
  | nulInName => "file name contained an unexpected NUL byte"

def message (f : FileFault) : String :=
  match f.code? with
  | some n => f.text ++ " (os error " ++ Nat.repr n ++ ")"
  | none => f.text

end FileFault

def ConstantRole.describe : ConstantRole → String
  | utf8 => "UTF-8 string"
  | classReference => "class reference"
  | nameAndType => "name and type"
  | fieldReference => "field reference"
  | methodReference => "method reference"
  | interfaceMethodReference => "interface method reference"
  | loadable => "loadable constant"
  | field => "field"
  | method => "method"

def Unsupported.describe : Unsupported → String
  | unknownSlot => "stack slot of unknown type"
  | arrayClassLiteral => "array class literal"
  | valueFromVoid => "value returned from void method"
  | invokeDynamic => "invokedynamic"
  | callForm form method => form ++ " call of " ++ method
  | newOfNonClass => "new of a non-class type"
  | multiArray => "multianewarray"
  | arrayOfArrays => "array of arrays"
  | arrayTypeTest => "type test against an array type"
  | instruction text => text
  | fallsOffTheEnd => "control falls off the end of the code"
  | arrayClassObject type => "class object of array type " ++ type
  | primitiveAllocation kind => "allocation of primitive type " ++ kind.name
  | callOfNonMethod name => "call of non-method " ++ name
  | instanceAccess name => "instance access to " ++ name

def Breakdown.describe : Breakdown → String
  | headlessVTable => "dispatch table without room for its header"
  | slotInHeader => "slot within the header of a dispatch table"
  | parameterSlots => "too many parameter slots to count"
  | jumpTableSize => "too many jump table entries to count"
  | nameEnd => "name too long to measure"

inductive Shape where
  | bare (name : String)
  | tuple (name field : String)
  | record (name : String) (fields : List (String × String))

def Shape.name : Shape → String
  | bare n | tuple n _ | record n _ => n

def Shape.text : Shape → String
  | bare n => n
  | tuple n field => n ++ "(" ++ field ++ ")"
  | record n fields =>
    n ++ " \x7b " ++ separated ", " (fields.map fun (k, v) => k ++ ": " ++ v) ++ " \x7d"

def FileFault.shape (f : FileFault) : Shape :=
  match f.code? with
  | some n => .record "Os" [("code", Nat.repr n), ("kind", f.kind), ("message", quoted f.text)]
  | none => .record "Error" [("kind", f.kind), ("message", quoted f.text)]

namespace Error

def message : Error → String
  | io f => "I/O error: " ++ f.message
  | badMagic m => "not a class file (bad magic number 0x" ++ hexPadded 8 m.toNat ++ ")"
  | unsupportedVersion major minor =>
    "unsupported class file version " ++ Nat.repr major.toNat ++ "." ++ Nat.repr minor.toNat
  | truncated => "class file is truncated"
  | trailingBytes n => Nat.repr n ++ " unexpected bytes after end of class file"
  | unsupportedConstantTag t => "unsupported constant pool tag " ++ Nat.repr t.toNat
  | badCodeLength length codeLength =>
    "code attribute length " ++ Nat.repr length.toNat ++ " cannot hold " ++ Nat.repr codeLength.toNat
      ++ " bytes of code"
  | invalidConstantIndex i => "invalid constant pool index " ++ Nat.repr i.toNat
  | unexpectedConstant i role =>
    "constant pool entry " ++ Nat.repr i.toNat ++ " is not a " ++ role.describe
  | invalidDescriptor text => "invalid type descriptor `" ++ text ++ "`"
  | classNotFound name => "could not find class " ++ name
  | otherClassFound name defined =>
    "could not find class " ++ name ++ " (file defines " ++ defined ++ ")"
  | missingMember owner name descriptor =>
    "could not find member " ++ owner ++ "." ++ name ++ " (" ++ descriptor ++ ")"
  | missingInterfaceImplementation owner method interface =>
    owner ++ ": implementation of method " ++ method ++ " from interface " ++ interface
      ++ " missing in non-abstract class"
  | missingCode method => "method " ++ method ++ " has no code"
  | stackUnderflow pc => "operand stack underflow at PC " ++ Nat.repr pc
  | stackOverflow pc => "code exceeds stack limit at PC " ++ Nat.repr pc
  | localOutOfRange pc index =>
    "local variable " ++ Nat.repr index.toNat ++ " out of range at PC " ++ Nat.repr pc
  | stackPointerMismatch pc => "stack pointer mismatch at PC " ++ Nat.repr pc
  | slotArity pc => "two-slot value split by a one-slot operation at PC " ++ Nat.repr pc
  | unknownArrayCode code => "unknown or undecodable opcode: newarray " ++ Nat.repr code.toNat
  | unsupported pc what =>
    "unsupported instruction at PC " ++ Nat.repr pc ++ ": " ++ what.describe
  | invalidBranchTarget pc target =>
    "branch at PC " ++ Nat.repr pc ++ " targets " ++ decimal target ++ ", outside of the method code"
  | compressionTableFull => "mangling compression table exceeds 36 entries"
  | invalidSymbol symbol => "invalid mangled symbol `" ++ symbol ++ "`"
  | breakdown what => what.describe
  | endless => "walk over circular links"

def shape : Error → Shape
  | io f => .tuple "Io" f.shape.text
  | badMagic m => .tuple "BadMagic" (Nat.repr m.toNat)
  | unsupportedVersion major minor =>
    .record "UnsupportedVersion" [("major", Nat.repr major.toNat), ("minor", Nat.repr minor.toNat)]
  | truncated => .bare "Truncated"
  | trailingBytes n => .tuple "TrailingBytes" (Nat.repr n)
  | unsupportedConstantTag t => .tuple "UnsupportedConstantTag" (Nat.repr t.toNat)
  | badCodeLength length codeLength =>
    .record "BadCodeLength"
      [("length", Nat.repr length.toNat), ("code_length", Nat.repr codeLength.toNat)]
  | invalidConstantIndex i => .tuple "InvalidConstantIndex" (Nat.repr i.toNat)
  | unexpectedConstant i role =>
    .record "UnexpectedConstant" [("index", Nat.repr i.toNat), ("expected", quoted role.describe)]
  | invalidDescriptor text => .tuple "InvalidDescriptor" (quoted text)
  | classNotFound name => .tuple "ClassNotFound" (quoted name)
  | otherClassFound name defined =>
    .tuple "ClassNotFound" (quoted (name ++ " (file defines " ++ defined ++ ")"))
  | missingMember owner name descriptor =>
    .record "MissingMember"
      [("class", quoted owner), ("name", quoted name), ("descriptor", quoted descriptor)]
  | missingInterfaceImplementation owner method interface =>
    .record "MissingInterfaceImplementation"
      [("class", quoted owner), ("method", quoted method), ("interface", quoted interface)]
  | missingCode method => .tuple "MissingCode" (quoted method)
  | stackUnderflow pc => .record "StackUnderflow" [("pc", Nat.repr pc)]
  | stackOverflow pc => .record "StackOverflow" [("pc", Nat.repr pc)]
  | localOutOfRange pc index =>
    .record "LocalOutOfRange" [("pc", Nat.repr pc), ("index", Nat.repr index.toNat)]
  | stackPointerMismatch pc => .record "StackPointerMismatch" [("pc", Nat.repr pc)]
  | slotArity pc => .record "SlotArity" [("pc", Nat.repr pc)]
  | unknownArrayCode code => .tuple "UnknownOpcode" (quoted ("newarray " ++ Nat.repr code.toNat))
  | unsupported pc what =>
    .record "Unsupported" [("pc", Nat.repr pc), ("what", quoted what.describe)]
  | invalidBranchTarget pc target =>
    .record "InvalidBranchTarget" [("pc", Nat.repr pc), ("target", decimal target)]
  | compressionTableFull => .bare "CompressionTableFull"
  | invalidSymbol symbol => .tuple "InvalidSymbol" (quoted symbol)
  | breakdown what => .tuple "Breakdown" (quoted what.describe)
  | endless => .bare "Endless"

def name (e : Error) : String := e.shape.name

def inspect (e : Error) : String := e.shape.text

def isBreakdown : Error → Bool
  | breakdown _ => true
  | _ => false

end Error

end JvmGraph
