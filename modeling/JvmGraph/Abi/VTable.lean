import JvmGraph.Abi.Basic
import JvmGraph.Program.Basic

/-!
# Dispatch tables

The dispatch table of a class begins as a copy of its superclass's. A method that overrides one with a
slot takes that slot, and any other method that is not excluded takes a new slot at the end. Abstract
methods are represented by a trap.
-/

namespace JvmGraph

structure VTable where
  /-- Slots given out so far, the header included. -/
  size : Nat
  entries : List Initializer
  deriving Inhabited

namespace VTable

def resize (n : Nat) (entries : List Initializer) : List Initializer :=
  entries.take n ++ List.replicate (n - entries.length) .null

def fill (t : VTable) (slot : Nat) (value : Initializer) : VTable :=
  { t with entries := (resize (max t.entries.length (slot + 1)) t.entries).set slot value }

/-- The table of a class before its own methods are entered. -/
def inherited (p : Program) (c : ClassId) : VTable :=
  match (p.classAt c).superclass? with
  | none => { size := Abi.headerSlots, entries := [] }
  | some s =>
    let super := p.classAt s
    let entries := match super.vtable?.bind fun v => (p.entityAt v).initializer? with
      | some (.compound entries) => entries
      | _ => []
    { size := super.vtableSize, entries }

def inheritedSlot? (p : Program) (m : Method) : Option Nat :=
  m.overwrites.findSome? fun o => (p.methodAt? o).bind Method.slot?

def enter (trap : EntityId) : Program → VTable → (members : List EntityId) → VTable × Program
  | p, t, [] => (t, p)
  | p, t, e :: rest =>
    match p.methodAt? e with
    | none => enter trap p t rest
    | some m =>
      if m.excluded then enter trap p t rest
      else
        let (slot, t) := match inheritedSlot? p m with
          | some slot => (slot, t)
          | none => (t.size, { t with size := t.size + 1 })
        let p := p.modifyMethod e fun m => { m with slot? := some slot }
        enter trap p (t.fill slot (.address (if m.isAbstract then trap else e))) rest

/-- The finished entries: as many as slots were given out, the class object and null in front. A table
over a superclass that has none may lack the room for these. -/
def close (t : VTable) (classObject? : Option EntityId) : Except Error (List Initializer) :=
  match resize t.size t.entries with
  | _ :: _ :: methods => .ok (.addressOrNull classObject? :: .null :: methods)
  | _ => .error (.breakdown .headlessVTable)

end VTable

namespace Program

/-- Gives slots to the methods of a class and fills its dispatch table. Interfaces have none. -/
def layoutVTable (p : Program) (c : ClassId) (trap : EntityId) : Except Error Program :=
  let info := p.classAt c
  match info.isInterface, info.vtable? with
  | false, some vtable => do
    let (t, p) := VTable.enter trap p (.inherited p c) info.members
    let entries ← t.close info.classObject?
    let p := p.modifyEntity vtable fun e => { e with initializer? := some (.compound entries) }
    return p.modifyClass c fun info => { info with vtableSize := t.size }
  | _, _ => return p

def dropExternVTables (p : Program) : Program :=
  p.classIds.foldl (fun p c =>
    let info := p.classAt c
    match info.isExtern, info.vtable? with
    | true, some v => p.modifyEntity v fun e => { e with initializer? := none, visibility := .external }
    | _, _ => p) p

end Program

end JvmGraph
