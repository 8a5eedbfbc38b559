import JvmGraph.Descriptor
import JvmGraph.Text.Split

/-!
# Linkage symbols

The symbol of a member, a vtable or a class object: `java/lang/Object.hashCode()I` is named
`_ZN4java4lang6Object8hashCodeEJiv`. Name scopes, pointer types and array instantiations are recorded
in a table as they are written, and a later occurrence is written as a reference into the table.
Every symbol starts with an empty table. A symbol is put together from pieces, so that a reference shows
what it stands for.
-/

namespace JvmGraph.Symbol

open Text

/-- Something that a later part of a symbol can refer back to. -/
inductive Component where
  /-- A class name up to the end of one of its parts. -/
  | scope (path : List Char)
  | pointer (name : List Char)
  /-- The array template. -/
  | template
  | array (element : FieldType)
  | arrayPointer (element : FieldType)
  deriving DecidableEq, Repr

def kindCode : Kind → Char
  | .byte => 'c'
  | .char => 'w'
  | .short => 's'
  | .int => 'i'
  | .long => 'x'
  | .boolean => 'b'
  | .float => 'f'
  | .double => 'd'
  | .object | .void => 'v'

def arrayOpening : List Char := "JArray<".toList

def spellingOnto : FieldType → (rest : List Char) → List Char
  | .base k, rest => kindCode k :: rest
  | .object name, rest => 'P' :: (name.toList ++ rest)
  | .array element, rest => arrayOpening ++ spellingOnto element ('>' :: rest)

def spelling (t : FieldType) : List Char := spellingOnto t []

def Component.key : Component → List Char
  | scope path => path
  | pointer name => 'P' :: name
  | template => "JArray".toList
  | array element => spelling (.array element)
  | arrayPointer element => 'P' :: spelling (.array element)

abbrev Table := List Component

def Table.capacity : Nat := 36

def Table.index? (t : Table) (c : Component) : Option Nat :=
  let key := c.key
  t.findIdx? fun d => d.key = key

/-- Writing a symbol grows the table and fails if that is full. -/
abbrev Mangler := StateT Table (Except Error)

def record (c : Component) : Mangler Unit := do
  let t ← get
  if Table.capacity ≤ t.length then throw .compressionTableFull
  set (t ++ [c])

def place? (c : Component) : Mangler (Option Nat) := return (← get).index? c

def digit36 (n : Nat) : Char := "0123456789ABCDEFGHIJKLMNOPQRSTUVWXYZ".toList.getD n '0'

def reference : Nat → List Char
  | 0 => ['S', '_']
  | i + 1 => ['S', digit36 i, '_']

def byteLength (name : List Char) : Nat := name.foldr (fun c n => c.utf8Size + n) 0

def sourceName (name : List Char) : List Char := Nat.toDigits 10 (byteLength name) ++ name

inductive Piece where
  | text (chars : List Char)
  /-- A reference to the place `index` of the table, where `component` would stand. -/
  | back (component : Component) (index : Nat)
  deriving DecidableEq, Repr

def Piece.chars : Piece → List Char
  | text chars => chars
  | back _ index => reference index

def render (ps : List Piece) : List Char := ps.flatMap Piece.chars

/-- A part of a class name, and the number of characters of the name up to its end. -/
structure Scope where
  stop : Nat
  part : List Char
  deriving DecidableEq, Repr

/-- The parts that lie one after the other from `start` on, with a character between them; empty ones
are left out. -/
def scopesFrom (start : Nat) : List (List Char) → List Scope
  | [] => []
  | part :: rest =>
    let stop := start + part.length
    if part = [] then scopesFrom (stop + 1) rest else ⟨stop, part⟩ :: scopesFrom (stop + 1) rest

def scopes (name : List Char) : List Scope := scopesFrom 0 (pieces '/' name)

/-- Writes scopes of a class name. A recorded scope is held back, and referred to in front of the next
new part. -/
def scopeNames (name : List Char) (held : Option Piece) : List Scope → Mangler (List Piece)
  | [] => return []
  | scope :: rest => do
    let component := Component.scope (name.take scope.stop)
    match ← place? component with
    | some i => scopeNames name (some (.back component i)) rest
    | none =>
      record component
      let after ← scopeNames name none rest
      return held.toList ++ .text (sourceName scope.part) :: after

def nestedScopes (name : List Char) : Mangler (List Piece) := scopeNames name none (scopes name)

def pointerName (name : List Char) : Mangler (List Piece) := do
  match ← place? (.pointer name), ← place? (.scope name) with
  | some i, _ => return [.back (.pointer name) i]
  | none, some i =>
    record (.pointer name)
    return [.text ['P'], .back (.scope name) i]
  | none, none =>
    let inner ← nestedScopes name
    record (.pointer name)
    return .text ['P', 'N'] :: (inner ++ [.text ['E']])

def templateName : Mangler Piece := do
  match ← place? .template with
  | some i => return .back .template i
  | none =>
    record .template
    return .text (sourceName "JArray".toList)

def typeName : FieldType → Mangler (List Piece)
  | .base k => return [.text [kindCode k]]
  | .object name => pointerName name.toList
  | .array element => do
    match ← place? (.arrayPointer element) with
    | some i => return [.back (.arrayPointer element) i]
    | none =>
      let template ← templateName
      let inner ← typeName element
      record (.array element)
      record (.arrayPointer element)
      return .text ['P'] :: template :: .text ['I'] :: (inner ++ [.text ['E']])

def typeNames (ts : List FieldType) : Mangler (List Piece) := return (← ts.mapM typeName).flatten

def reservedNames : List String := ["not", "and", "or", "xor", "delete"]

def classInitialiser : String := "__U3c_clinit__U3e_"

def memberName (member : String) : List Char :=
  if member = "<init>" then ['C', '1']
  else if member = "<clinit>" then sourceName classInitialiser.toList
  else sourceName member.toList ++ (if member ∈ reservedNames then ['$'] else [])

inductive MemberKind where
  | field
  | method (type : MethodType) (isStatic : Bool)
  deriving DecidableEq, Repr

def resultName (result? : Option FieldType) : Mangler (List Piece) :=
  result?.elim (pure [.text ['v']]) typeName

def paramNames (params : List FieldType) : Mangler (List Piece) :=
  if params = [] then return [.text ['v']] else typeNames params

/-- The types after the name of a method: the result behind a `J`, then the parameters. A constructor
that takes nothing has `v` alone. -/
def signature (member : String) (type : MethodType) (isStatic : Bool) : Mangler (List Piece) := do
  if member = "<init>" ∧ type.result? = none ∧ type.params = [] ∧ ¬ isStatic then return [.text ['v']]
  let result ← resultName type.result?
  let params ← paramNames type.params
  return .text ['J'] :: (result ++ params)

def encodedTypes (member : String) : MemberKind → Mangler (List Piece)
  | .field => return []
  | .method type isStatic => signature member type isStatic

/-- The class that a symbol is about is spelled out, which it would not be if it were recorded already. -/
def ownerScopes (name : String) : Mangler (List Piece) := do
  match ← place? (.scope name.toList) with
  | some _ => throw (.invalidSymbol name)
  | none => nestedScopes name.toList

def memberSymbol (owner member : String) (kind : MemberKind) : Mangler (List Piece) := do
  let inner ← ownerScopes owner
  let types ← encodedTypes member kind
  return .text "_ZN".toList :: (inner ++ .text (memberName member) :: .text ['E'] :: types)

def vtableSymbol (name : String) : Mangler (List Piece) := do
  return .text "_ZTVN".toList :: ((← ownerScopes name) ++ [.text ['E']])

def run (m : Mangler (List Piece)) : Except Error String := (m.run' []).map fun ps => String.ofList (render ps)

def mangleMember (owner member : String) (kind : MemberKind) : Except Error String :=
  run (memberSymbol owner member kind)

def mangleVTable (name : String) : Except Error String := run (vtableSymbol name)

def classObjectName : String := "class$"

def mangleClassObject (name : String) : Except Error String :=
  mangleMember name classObjectName .field

end JvmGraph.Symbol
