import JvmGraph.Kind
import JvmGraph.Text.Numeral

/-!
# Operations

What one bytecode instruction does, with the many spellings of an instruction brought together:
`iload_2`, `iload 2` and `wide iload 2` are one operation. Branch targets are addresses in the code.
-/

namespace JvmGraph

open Text

inductive Arithmetic where
  | add | sub | mul | div | rem | neg | shl | shr | ushr | and | or | xor
  deriving DecidableEq, Repr

inductive Comparison where
  | eq | ne | lt | ge | gt | le
  deriving DecidableEq, Repr

/-- How the slots on top of the operand stack are moved. -/
inductive Shuffle where
  | pop | dup | dupX1 | dupX2 | swap
  deriving DecidableEq, Repr

/-- Which way a comparison goes if an operand is not a number. -/
inductive NanOrder where
  | greater | less
  deriving DecidableEq, Repr

inductive CallForm where
  | dynamic
  | interface (count : UInt8)
  | special | static | virtual
  deriving DecidableEq, Repr

def CallForm.text : CallForm → String
  | dynamic => "Dynamic"
  | interface count => "Interface(" ++ Nat.repr count.toNat ++ ")"
  | special => "Special"
  | static => "Static"
  | virtual => "Virtual"

inductive ArrayElement where
  | primitive (kind : Kind)
  /-- A class constant. -/
  | named (index : UInt16)
  deriving DecidableEq, Repr

/-- Instructions that are read and not compiled: switches and subroutines. Offsets are relative. -/
inductive Uncompiled where
  | tableSwitch (default low high : Int) (offsets : List Int)
  | lookupSwitch (default : Int) (pairs : List (Int × Int))
  | jsr (offset : Int)
  | jsrWide (offset : Int)
  | ret (index : Nat)
  | retWide (index : Nat)
  deriving DecidableEq, Repr

def Uncompiled.text : Uncompiled → String
  | tableSwitch d low high offsets =>
    "Tableswitch \x7b default: " ++ decimal d ++ ", low: " ++ decimal low ++ ", high: " ++ decimal high
      ++ ", offsets: [" ++ separated ", " (offsets.map decimal) ++ "] \x7d"
  | lookupSwitch d pairs =>
    "Lookupswitch \x7b default: " ++ decimal d ++ ", pairs: ["
      ++ separated ", " (pairs.map fun (k, o) => "(" ++ decimal k ++ ", " ++ decimal o ++ ")")
      ++ "] \x7d"
  | jsr o => "Jsr(" ++ decimal o ++ ")"
  | jsrWide o => "JsrW(" ++ decimal o ++ ")"
  | ret i => "Ret(" ++ Nat.repr i ++ ")"
  | retWide i => "RetWide(" ++ Nat.repr i ++ ")"

inductive Operation where
  | noop
  | constant (kind : Kind) (value : Int)
  | loadConstant (index : UInt16)
  | loadLocal (kind : Kind) (index : UInt16)
  | storeLocal (kind : Kind) (index : UInt16)
  | loadArray (kind : Kind)
  | storeArray (kind : Kind)
  /-- Moves single slots, or pairs of them if `wide`. -/
  | shuffle (wide : Bool) (how : Shuffle)
  | arithmetic (kind : Kind) (op : Arithmetic)
  | increment (index : UInt16) (value : Int)
  | convert (source target : Kind)
  | compare (kind : Kind) (nans : Option NanOrder)
  /-- Compares two operands, or one with zero or null unless `binary`. -/
  | branch (kind : Kind) (binary : Bool) (way : Comparison) (target : Nat)
  | jump (target : Nat)
  | yield (kind : Kind)
  | getStatic (index : UInt16)
  | putStatic (index : UInt16)
  | getField (index : UInt16)
  | putField (index : UInt16)
  | invoke (form : CallForm) (index : UInt16)
  | new (index : UInt16)
  | newArray (element : ArrayElement) (dimensions : Nat)
  | arrayLength
  | throw
  | checkCast (index : UInt16)
  | instanceOf (index : UInt16)
  | monitor
  | uncompiled (instruction : Uncompiled)
  deriving DecidableEq, Repr

def Operation.target? : Operation → Option Nat
  | branch _ _ _ target => some target
  | jump target => some target
  | _ => none

end JvmGraph
