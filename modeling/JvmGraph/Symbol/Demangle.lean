import JvmGraph.Symbol.Mangle

/-!
# Reading symbols back

A symbol gives back its class and member names; the types after them stay as they are written. Below,
`invalid` is the fault that is laid to a symbol which cannot be read.
-/

namespace JvmGraph.Symbol

structure Demangled where
  /-- The class name, its parts joined by `/`. -/
  owner : String
  /-- Absent for a vtable. -/
  member? : Option String
  /-- The encoded types after the name. -/
  signature : String
  deriving DecidableEq, Repr

def after? : (front s : List Char) → Option (List Char)
  | [], s => some s
  | c :: front, d :: s => if c = d then after? front s else none
  | _ :: _, [] => none

def takeBytes? : Nat → List Char → Option (List Char × List Char)
  | 0, s => some ([], s)
  | _ + 1, [] => none
  | n + 1, c :: s =>
    if c.utf8Size ≤ n + 1 then
      (takeBytes? (n + 1 - c.utf8Size) s).map fun (taken, rest) => (c :: taken, rest)
    else none

def number? (digits : List Char) : Option Nat :=
  if digits = [] then none
  else some (digits.foldl (fun n d => n * 10 + (d.toNat - '0'.toNat)) 0)

def maxLength : Nat := 0xffffffffffffffff

def nameLength (invalid : Error) (digits : List Char) : Except Error Nat :=
  match number? digits with
  | none => .error invalid
  | some n =>
    if maxLength < n then .error invalid
    else if maxLength < digits.length + n then .error (.breakdown .nameEnd)
    else .ok n

def nextName (invalid : Error) (s : List Char) : Except Error (String × List Char) := do
  let length ← nameLength invalid (s.takeWhile Char.isDigit)
  match takeBytes? length (s.dropWhile Char.isDigit) with
  | none => throw invalid
  | some (taken, rest) =>
    let name := String.ofList taken
    let rest := if name ∈ reservedNames then (after? ['$'] rest).getD rest else rest
    return (if name = classInitialiser then "<clinit>" else name, rest)

/-- Names up to the closing `E`, and what follows it. Each takes a character at least, so the length
of the text is fuel enough. -/
def namesUpToEnd (invalid : Error) : Nat → List Char → Except Error (List String × List Char)
  | _, 'E' :: rest => .ok ([], rest)
  | 0, _ => .error invalid
  | fuel + 1, 'C' :: '1' :: rest => do
    let (names, after) ← namesUpToEnd invalid fuel rest
    return ("<init>" :: names, after)
  | fuel + 1, s => do
    let (name, rest) ← nextName invalid s
    let (names, after) ← namesUpToEnd invalid fuel rest
    return (name :: names, after)

def demangleVTable (invalid : Error) (s : List Char) : Except Error Demangled := do
  let (names, rest) ← namesUpToEnd invalid s.length s
  if names = [] ∨ rest ≠ [] then throw invalid
  return ⟨String.intercalate "/" names, none, ""⟩

def demangleMember (invalid : Error) (s : List Char) : Except Error Demangled := do
  let (names, rest) ← namesUpToEnd invalid s.length s
  if names.dropLast = [] then throw invalid
  return ⟨String.intercalate "/" names.dropLast, names.getLast?, String.ofList rest⟩

def demangle (symbol : String) : Except Error Demangled :=
  let invalid : Error := .invalidSymbol symbol
  match after? "_ZTVN".toList symbol.toList, after? "_ZN".toList symbol.toList with
  | some rest, _ => demangleVTable invalid rest
  | none, some rest => demangleMember invalid rest
  | none, none => .error invalid

end JvmGraph.Symbol
