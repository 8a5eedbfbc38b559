import JvmGraph.Kind

/-!
# Modes

The mode of a graph node says what it yields: a value of a machine type, a memory state, control, or
a tuple of such results.
-/

namespace JvmGraph

inductive Mode where
  | bool | byte | char | short | int | long | float | double | reference
  /-- Unsigned 32-bit, for shift counts and sizes. -/
  | unsigned
  | memory | control | tuple
  deriving DecidableEq, Repr, Inhabited

namespace Mode

def isTwoSlot (m : Mode) : Bool := m = long || m = double

def arithmetic : Mode → Mode
  | bool | byte | char | short => int
  | m => m

def size : Mode → Nat
  | bool | byte => 1
  | char | short => 2
  | int | float | unsigned | reference => 4
  | long | double => 8
  | memory | control | tuple => 0

def mark : Mode → String
  | bool => "b"
  | byte => "Bs"
  | char => "Hu"
  | short => "Hs"
  | int => "Is"
  | long => "Ls"
  | float => "F"
  | double => "D"
  | reference => "P"
  | unsigned => "Iu"
  | memory => "M"
  | control => "X"
  | tuple => "T"

end Mode

def Kind.mode : Kind → Mode
  | .int => .int
  | .long => .long
  | .float => .float
  | .double => .double
  | .object => .reference
  | .byte => .byte
  | .char => .char
  | .short => .short
  | .boolean => .bool
  | .void => .tuple

end JvmGraph
