/-!
# Numerals and lists in text

Hexadecimal texts in lowercase digits, decimal texts with a sign in front, and texts put together from
parts.
-/

namespace JvmGraph.Text

def hex (n : Nat) : String := String.ofList (Nat.toDigits 16 n)

def hexPadded (width n : Nat) : String :=
  String.ofList ((Nat.toDigits 16 n).leftpad width '0')

def decimal (i : Int) : String :=
  match i with
  | .ofNat n => Nat.repr n
  | .negSucc n => "-" ++ Nat.repr (n + 1)

def separated (separator : String) (items : List String) : String :=
  String.intercalate separator items

def substituted (old new : Char) (s : String) : String :=
  String.ofList (s.toList.map fun c => if c = old then new else c)

end JvmGraph.Text
