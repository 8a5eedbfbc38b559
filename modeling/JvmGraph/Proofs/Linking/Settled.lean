import Mathlib.Data.List.Forall2
import JvmGraph.Linking.Finalize
import JvmGraph.Proofs.Abi.FieldLayout
import JvmGraph.Proofs.Abi.VTable
import JvmGraph.Proofs.Loading.Sound
import JvmGraph.Proofs.Program.Ancestry

/-!
# Finalized classes

What the finalization of a class leaves behind, said of the program alone: where each member comes from and
what it overrides, how slots were given out, what the dispatch table holds and what the class object says
of the methods. All of it stays true while other classes are worked on.
-/

open Relation (TransGen)

namespace JvmGraph.Program

variable (p : Program) (c : ClassId)

/-! ## Members -/

def InterfaceOf : ClassId → ClassId → Prop := TransGen fun a b => b ∈ (p.classAt a).interfaces

def InterfaceMember (e : EntityId) : Prop := ∃ i, p.InterfaceOf c i ∧ e ∈ (p.classAt i).members

def InheritedMember (e : EntityId) : Prop :=
  ∃ s, (p.classAt c).superclass? = some s ∧ ∃ a ∈ p.ancestry s, e ∈ (p.classAt a).members

def overrides? (name : String) (m : Method) : Option EntityId :=
  if m.isStatic || m.flags.isPrivate || name.toList.head? = some '<' then none
  else p.overridden? c name m.descriptor

structure Declared (file : ClassFile) (member : Member) (name : String) (m : Method) : Prop where
  nameOf : file.nameOf member = .ok name
  descriptorOf : file.descriptorOf member = .ok m.descriptor
  flags : m.flags = member.flags
  isAbstract : m.isAbstract = m.flags.isAbstract
  isFinal : m.isFinal = (m.flags.isFinal || (p.classAt c).isFinal)
  implementation : m.implementation? = none
  overwrites : ∃ ims, m.overwrites = (p.overrides? c name m).toList ++ ims ∧ ∀ im ∈ ims, p.InterfaceMember c im
  excluded : m.excluded = (m.isStatic || m.flags.isPrivate || name = "<init>" ||
    (m.isFinal && (p.overrides? c name m).isNone))
  binding : m.binding = if m.excluded || m.isFinal then .static
    else if (p.classAt c).isInterface then .interface else .dynamic

structure Inherits (name : String) (m : Method) (o r : EntityId) (mr : Method) : Prop where
  overridden : p.overridden? c name m.descriptor = some o
  real : ((p.declAt? o).bind Method.implementation?).getD o = r
  decl : p.declAt? r = some mr
  realName : (p.entityAt r).name = name
  realDescriptor : mr.descriptor = m.descriptor
  unlinked : mr.implementation? = none
  inherited : p.InheritedMember c r
  implementation : m.implementation? = some r
  flags : m.flags = mr.flags
  slot : m.slot? = mr.slot?
  isFinal : m.isFinal = mr.isFinal
  isAbstract : m.isAbstract = false
  excluded : m.excluded = true
  binding : m.binding = .dynamic

structure Vacant (name : String) (m : Method) : Prop where
  overridden : p.overridden? c name m.descriptor = none
  overwrites : ∀ im ∈ m.overwrites, p.InterfaceMember c im
  implementation : m.implementation? = none
  isStatic : m.isStatic = false
  isAbstract : m.isAbstract = true
  excluded : m.excluded = false
  binding : m.binding = .dynamic

def IsDeclared (file : ClassFile) (member : Member) (e : EntityId) : Prop :=
  ∃ m, p.declAt? e = some m ∧ p.Declared c file member (p.entityAt e).name m

/-- `e` was added for a method of an interface. -/
def IsStandIn (e : EntityId) : Prop :=
  ∃ m, p.declAt? e = some m ∧
    ((∃ o r mr, p.Inherits c (p.entityAt e).name m o r mr) ∨ p.Vacant c (p.entityAt e).name m)

structure Parts (file : ClassFile) (fields declared standIns : List EntityId) : Prop where
  members : (p.classAt c).members = fields ++ (declared ++ standIns)
  isField : ∀ e ∈ fields, p.declAt? e = none
  isDeclared : List.Forall₂ (p.IsDeclared c file) file.methods declared
  isStandIn : ∀ e ∈ standIns, p.IsStandIn c e
  /-- A stand-in is the only instance method with its name and descriptor. -/
  sole : ∀ name descriptor, ∀ e ∈ (p.classAt c).members, ∀ e' ∈ standIns,
    isInstanceMethod name descriptor (p.entityAt e) = true →
      isInstanceMethod name descriptor (p.entityAt e') = true → e = e'
  /-- Interfaces need no stand-ins. -/
  plain : (p.classAt c).isInterface = true → standIns = []
  /-- A method without an implementation link that is excluded has no slot. -/
  unslotted : ∀ e ∈ (p.classAt c).members, ∀ m, p.declAt? e = some m → m.implementation? = none →
    (m.excluded = true ∨ (p.classAt c).isInterface = true) → m.slot? = none

/-! ## Dispatch tables -/

def Enters (e : EntityId) (m : Method) : Prop :=
  e ∈ (p.classAt c).members ∧ p.declAt? e = some m ∧ m.excluded = false

def codeOrTrap (trap e : EntityId) (m : Method) : Initializer := .address (if m.isAbstract then trap else e)

/-- What the table of `c` begins with has room for all that is taken over from it. -/
def Roomy : Prop :=
  (VTable.inherited p c).entries.length ≤ (VTable.inherited p c).size ∧
    ∀ e m, p.Enters c e m → ∀ s, VTable.inheritedSlot? p m = some s → s < (VTable.inherited p c).size

/-- Every method that takes a slot has that of what it overrides, or one that the superclass does not have, and
`entries` holds each in its slot. -/
structure Laid (trap : EntityId) (entries : List Initializer) : Prop where
  size_le : (VTable.inherited p c).size ≤ (p.classAt c).vtableSize
  length : entries.length = (p.classAt c).vtableSize
  slot : ∀ e m, p.Enters c e m → ∃ slot, m.slot? = some slot ∧ slot < (p.classAt c).vtableSize ∧
    (∀ s, VTable.inheritedSlot? p m = some s → slot = s) ∧
      (VTable.inheritedSlot? p m = none → (VTable.inherited p c).size ≤ slot)
  fresh : ∀ e e' m m', p.Enters c e m → p.Enters c e' m' → VTable.inheritedSlot? p m = none →
    VTable.inheritedSlot? p m' = none → m.slot? = m'.slot? → e = e'
  entry : ∀ j, Abi.headerSlots ≤ j →
    (∃ e m, p.Enters c e m ∧ m.slot? = some j ∧ entries[j]? = some (codeOrTrap trap e m)) ∨
    ((∀ e m, p.Enters c e m → m.slot? ≠ some j) ∧ entries[j]? = (VTable.inherited p c).full[j]?)

def Tabled (trap : EntityId) : Prop :=
  (p.classAt c).isInterface = false → ∃ v entries, (p.classAt c).vtable? = some v ∧
    (p.entityAt v).initializer? = some (.compound entries) ∧ (p.Roomy c → p.Laid c trap entries)

/-! ## Class objects -/

def classObjectField? (name : String) : Option Initializer :=
  match (p.classAt c).classObject?.bind fun o => (p.entityAt o).initializer? with
  | some (.compound values) => values[ClassObject.fieldNames.idxOf name]?
  | _ => none

def methodTable : List Initializer :=
  match p.classObjectField? c "methods" with
  | some (.address t) =>
    match (p.entityAt t).initializer? with
    | some (.compound rows) => rows
    | _ => []
  | _ => []

def methodIds : List EntityId := (p.classAt c).members.filter fun e => (p.declAt? e).isSome

/-- Where the code is, in a row of a method table. -/
def codePointer? : Initializer → Option Initializer
  | .compound parts => parts[4]?
  | _ => none

def IsRow (trap e : EntityId) (row : Initializer) : Prop :=
  ∃ m, p.declAt? e = some m ∧ codePointer? row = some (.address (ClassObject.codeOf trap e m)) ∧
    ∀ s, m.slot? = some s → Abi.headerSlots ≤ s

structure Described (trap : EntityId) : Prop where
  table : ∀ t, p.classObjectField? c "methods" = some (.address t) →
    p.HasEntity t ∧ (p.entityAt t).owner? = none
  rows : List.Forall₂ (p.IsRow trap) (p.methodIds c) (p.methodTable c)

/-! ## All together -/

def IsTrap (trap : EntityId) : Prop :=
  p.HasEntity trap ∧ p.entityAt trap = World.functionEntity .throwAbstractMethodError

structure Linked : Prop where
  has : p.HasClass c
  finalized : (p.classAt c).state = .finalized
  nodup : (p.classAt c).members.Nodup
  owned : ∀ e ∈ (p.classAt c).members, p.HasEntity e ∧ (p.entityAt e).owner? = some c
  vtable : ∀ v, (p.classAt c).vtable? = some v → p.HasEntity v ∧ (p.entityAt v).owner? = some c
  classObject : ∀ o, (p.classAt c).classObject? = some o → p.HasEntity o ∧ (p.entityAt o).owner? = some c
  parts : ∃ file fields declared standIns, (p.classAt c).file? = some file ∧
    p.Parts c file fields declared standIns
  tables : ∃ trap, p.IsTrap trap ∧ p.Tabled c trap ∧
    ((p.classAt c).isExtern = false → p.Described c trap)

inductive Settled : ClassId → Prop
  | intro (c : ClassId) (linked : p.Linked c)
      (super : ∀ s, (p.classAt c).superclass? = some s → Settled s)
      (interfaces : ∀ i ∈ (p.classAt c).interfaces, Settled i) : Settled c

variable {p c}

namespace Settled

variable (h : p.Settled c) {s i a : ClassId}

include h

lemma linked : p.Linked c := by
  cases h with
  | intro _ hl => exact hl

lemma super (hs : (p.classAt c).superclass? = some s) : p.Settled s := by
  cases h with
  | intro _ _ h => exact h s hs

lemma interface (hi : i ∈ (p.classAt c).interfaces) : p.Settled i := by
  cases h with
  | intro _ _ _ h => exact h i hi

lemma lineage : ∃ l, p.Lineage c l ∧ ∀ d ∈ l, p.Settled d := by
  induction h with
  | intro c hl hs hi ihs _ =>
    cases hsuper : (p.classAt c).superclass? with
    | none => exact ⟨[c], .root hsuper, by simpa using Settled.intro c hl hs hi⟩
    | some s =>
      obtain ⟨l, h1, h2⟩ := ihs s hsuper
      refine ⟨c :: l, .sub hsuper h1, ?_⟩
      intro d hd
      rcases List.mem_cons.1 hd with rfl | hd
      · exact .intro d hl hs hi
      · exact h2 d hd

lemma lineage_ancestry : p.Lineage c (p.ancestry c) := by
  obtain ⟨l, h1, h2⟩ := h.lineage
  rwa [h1.ancestry_eq fun d hd => (h2 d hd).linked.has]

lemma self_mem : c ∈ p.ancestry c := h.lineage_ancestry.self_mem

lemma ancestor (ha : a ∈ p.ancestry c) : p.Settled a := by
  obtain ⟨l, h1, h2⟩ := h.lineage
  rw [h1.ancestry_eq fun d hd => (h2 d hd).linked.has] at ha
  exact h2 a ha

lemma ancestry_trans {b : ClassId} (ha : a ∈ p.ancestry c) (hb : b ∈ p.ancestry a) : b ∈ p.ancestry c := by
  obtain ⟨l, h1, h2⟩ := h.lineage_ancestry.suffix ha
  rw [(h.ancestor ha).lineage_ancestry.unique h1] at hb
  exact h2.subset hb

lemma ancestry_root (hs : (p.classAt c).superclass? = none) : p.ancestry c = [c] :=
  h.lineage_ancestry.unique (.root hs)

lemma ancestry_sub (hs : (p.classAt c).superclass? = some s) : p.ancestry c = c :: p.ancestry s :=
  h.lineage_ancestry.unique (.sub hs (h.super hs).lineage_ancestry)

lemma forall_ancestry {P : ClassId → Prop} :
    (∀ a ∈ p.ancestry c, P a) ↔ P c ∧ ∀ s, (p.classAt c).superclass? = some s → ∀ a ∈ p.ancestry s, P a := by
  cases hs : (p.classAt c).superclass? with
  | none => simp [h.ancestry_root hs]
  | some s => simp [h.ancestry_sub hs]

@[elab_as_elim]
lemma down {motive : ∀ c, p.Settled c → Prop}
    (step : ∀ c (h : p.Settled c), (∀ s (hs : (p.classAt c).superclass? = some s), motive s (h.super hs)) →
      motive c h) : motive c h := by
  induction h with
  | intro c hl hs hi ih _ => exact step c (.intro c hl hs hi) ih

lemma interfaceOf (hi : p.InterfaceOf c i) : p.Settled i := by
  induction hi with
  | single hi => exact h.interface hi
  | tail _ hi ih => exact ih.interface hi

end Settled

end JvmGraph.Program
