import JvmGraph.Error
import JvmGraph.Mode

/-!
# Type descriptors

Field types and method types, and their written form `(ILjava/lang/String;)V`. Reading consumes a
type from the front of a text and hands on the rest; a fault carries the text from the place where no
type could be read.
-/

namespace JvmGraph

inductive FieldType where
  | base (kind : Kind)
  | object (name : String)
  | array (element : FieldType)
  deriving DecidableEq, Repr, Inhabited

structure MethodType where
  params : List FieldType
  result? : Option FieldType
  deriving DecidableEq, Repr, Inhabited

namespace FieldType

def slots : FieldType → Nat
  | base k => k.slots
  | _ => 1

def mode : FieldType → Mode
  | base k => k.mode
  | _ => .reference

def chars : FieldType → List Char
  | base k => [k.letter?.getD 'L']
  | object name => 'L' :: (name.toList ++ [';'])
  | array element => '[' :: element.chars

def text (t : FieldType) : String := String.ofList t.chars

def primitive? (c : Char) : Option Kind :=
  (Kind.ofLetter? c).filter fun k => k ≠ .object ∧ k ≠ .void

/-- Takes one type off the front. A class name is everything up to the next semicolon, and not
empty. -/
def scan : List Char → Except Error (FieldType × List Char)
  | [] => .error (.invalidDescriptor "")
  | c :: rest =>
    if c = '[' then
      (scan rest).map fun (element, after) => (.array element, after)
    else if c = 'L' then
      match rest.takeWhile (· ≠ ';'), rest.dropWhile (· ≠ ';') with
      | n :: name, _ :: after => .ok (.object (String.ofList (n :: name)), after)
      | _, _ => .error (.invalidDescriptor (String.ofList (c :: rest)))
    else match primitive? c with
      | some k => .ok (.base k, rest)
      | none => .error (.invalidDescriptor (String.ofList (c :: rest)))

def ofChars (s : List Char) : Except Error FieldType := do
  match ← scan s with
  | (t, []) => .ok t
  | _ => .error (.invalidDescriptor (String.ofList s))

def parse (s : String) : Except Error FieldType := ofChars s.toList

end FieldType

namespace MethodType

def chars (m : MethodType) : List Char :=
  '(' :: (m.params.flatMap FieldType.chars ++ ')' :: (m.result?.elim ['V'] FieldType.chars))

def text (m : MethodType) : String := String.ofList m.chars

/-- Types up to the closing parenthesis, and what follows it; `read` are those before them, the last
one first. Every type takes a character, so the length of the text is fuel enough. -/
def scanParams? (read : List FieldType) : Nat → List Char → Option (List FieldType × List Char)
  | _, ')' :: rest => some (read.reverse, rest)
  | 0, _ => none
  | fuel + 1, s =>
    match FieldType.scan s with
    | .error _ => none
    | .ok (t, rest) => scanParams? (t :: read) fuel rest

def scanResult? (s : List Char) : Option (Option FieldType) :=
  if s = ['V'] then some none else (FieldType.ofChars s).toOption.map some

def ofChars? : List Char → Option MethodType
  | '(' :: s => do
    let (params, rest) ← scanParams? [] s.length s
    let result? ← scanResult? rest
    return { params, result? }
  | _ => none

/-- Reads a whole text as a method type. Any fault is laid to the whole text. -/
def parse (s : String) : Except Error MethodType :=
  match ofChars? s.toList with
  | some m => .ok m
  | none => .error (.invalidDescriptor s)

/-- The largest number of parameter slots that can be counted. -/
def maxCount : Nat := 65535

def maxParamSlots : Nat := 255

/-- Beyond `maxCount` the sum overflows, which is a breakdown in checked builds only. -/
def paramSlots (m : MethodType) : Except Error Nat :=
  let slots := m.params.foldl (fun n t => n + t.slots) 0
  if slots ≤ maxCount then .ok slots else .error (.breakdown .parameterSlots)

def countParams (s : String) : Except Error Nat := do
  let slots ← (← parse s).paramSlots
  if slots ≤ maxParamSlots then return slots else throw (.invalidDescriptor s)

def countReturns (s : String) : Except Error Nat := do
  return (← parse s).result?.elim 0 FieldType.slots

end MethodType

end JvmGraph
