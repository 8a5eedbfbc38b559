import JvmGraph.Mode

/-!
# Classes, entities and types by number

Classes and entities of a program are numbered in the order of their creation. The static type of a
value refers to classes by number.
-/

namespace JvmGraph

structure ClassId where
  index : Nat
  deriving DecidableEq, Repr, Inhabited

/-- The number of an entity: a member, a table, a constant or a function of the runtime. -/
structure EntityId where
  index : Nat
  deriving DecidableEq, Repr, Inhabited

inductive TypeRef where
  | prim (kind : Kind)
  | ofClass (id : ClassId)
  | array (element : TypeRef)
  deriving DecidableEq, Repr, Inhabited

namespace TypeRef

def mode : TypeRef → Mode
  | prim k => k.mode
  | _ => .reference

def size (t : TypeRef) : Nat := t.mode.size

def text : TypeRef → String
  | prim k => k.name
  | ofClass c => "t" ++ Nat.repr c.index
  | array e => e.text ++ "[]"

end TypeRef

end JvmGraph
