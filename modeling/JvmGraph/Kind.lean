/-!
# Value kinds

The kinds of value that bytecode tells apart: the primitive types, references, and `void` for the
absence of a value. `long` and `double` take two slots of a frame.
-/

namespace JvmGraph

inductive Kind where
  | int | long | float | double | object | byte | char | short | boolean | void
  deriving DecidableEq, Repr, Inhabited

namespace Kind

def name : Kind → String
  | int => "Int"
  | long => "Long"
  | float => "Float"
  | double => "Double"
  | object => "Object"
  | byte => "Byte"
  | char => "Char"
  | short => "Short"
  | boolean => "Boolean"
  | void => "Void"

/-- Slots a value of this kind takes on the operand stack or among the local variables. -/
def slots : Kind → Nat
  | long | double => 2
  | void => 0
  | _ => 1

def letter? : Kind → Option Char
  | int => some 'I'
  | long => some 'J'
  | float => some 'F'
  | double => some 'D'
  | byte => some 'B'
  | char => some 'C'
  | short => some 'S'
  | boolean => some 'Z'
  | void => some 'V'
  | object => none

def ofLetter? (c : Char) : Option Kind :=
  if c = 'I' then some int
  else if c = 'J' then some long
  else if c = 'F' then some float
  else if c = 'D' then some double
  else if c = 'L' then some object
  else if c = '[' then some object
  else if c = 'B' then some byte
  else if c = 'C' then some char
  else if c = 'S' then some short
  else if c = 'Z' then some boolean
  else if c = 'V' then some void
  else none

def ofArrayCode? (code : UInt8) : Option Kind :=
  if code < 4 then none
  else [boolean, char, float, double, byte, short, int, long][code.toNat - 4]?

end Kind

end JvmGraph
