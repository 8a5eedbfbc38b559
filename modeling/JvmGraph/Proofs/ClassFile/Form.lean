import JvmGraph.Proofs.ClassFile.Grammar

/-!
# Written forms of class files

A class file says less than the bytes it was read from: flag bits without a meaning are dropped, code does not
keep the name it stood under, and the pool holds the second index of a wide constant even where the count of
the file did not. A form keeps these three. It has bytes and a meaning, and among the forms of one meaning there
is a standard one.
-/

namespace JvmGraph

open Text Reader List

variable {codeIndex : UInt16} {cf : ClassFile}

/-! ## Constants -/

namespace Constant

/-- The length of a text has a field of 16 bits. -/
def Fits : Constant → Prop
  | utf8 bytes => bytes.length < 0x10000
  | _ => True

/-- These constants take `n` indices, where the second index of the last one may be left out. -/
def Fill : List Constant → Nat → Prop
  | [], n => n = 0
  | c :: cs, n => 0 < n ∧ Fill cs (n - c.entries.length)

instance : DecidablePred Fits
  | utf8 bytes => inferInstanceAs (Decidable (bytes.length < 0x10000))
  | integer _ | float _ | long _ | double _ | classRef _ | string _ | member .. | nameAndType .. => .isTrue trivial

instance decidableFill : (cs : List Constant) → (n : Nat) → Decidable (Fill cs n)
  | [], n => inferInstanceAs (Decidable (n = 0))
  | c :: cs, n =>
    have := decidableFill cs (n - c.entries.length)
    inferInstanceAs (Decidable (0 < n ∧ Fill cs (n - c.entries.length)))

end Constant

namespace ConstantPool

def constants (p : ConstantPool) : List Constant := p.entries.toList.filterMap id

/-- Index 0 names nothing, and of the others those do that follow a wide constant. -/
def IsLaidOut (p : ConstantPool) : Prop :=
  p.entries[0]? = some none ∧
    ∀ i, p.entries[i + 1]? = some none ↔ ∃ c, p.entries[i]? = some (some c) ∧ c.isWide

end ConstantPool

/-! ## Attributes -/

inductive AttributeForm where
  | code (nameIndex maxStack maxLocals : UInt16) (instructions : Bytes) (handlers : List Handler)
      (attributes : List AttributeForm)
  | other (nameIndex : UInt16) (info : Bytes)

def Handler.bytes (h : Handler) : Bytes :=
  bigEndian 2 h.startPc.toNat ++ bigEndian 2 h.endPc.toNat ++ bigEndian 2 h.handlerPc.toNat ++
    bigEndian 2 h.catchType.toNat

def codeBody (maxStack maxLocals : UInt16) (instructions : Bytes) (handlers : List Handler) (attributes : Bytes) :
    Bytes :=
  bigEndian 2 maxStack.toNat ++ bigEndian 2 maxLocals.toNat ++ bigEndian 4 instructions.length ++ instructions ++
    countedBytes Handler.bytes handlers ++ attributes

def attributeBytes (nameIndex : UInt16) (body : Bytes) : Bytes :=
  bigEndian 2 nameIndex.toNat ++ bigEndian 4 body.length ++ body

namespace AttributeForm

def bytes : AttributeForm → Bytes
  | code nameIndex maxStack maxLocals instructions handlers attributes =>
    attributeBytes nameIndex (codeBody maxStack maxLocals instructions handlers
      (bigEndian 2 attributes.length ++ attributes.flatMap bytes))
  | other nameIndex info => attributeBytes nameIndex info

def meaning : AttributeForm → Attribute
  | code _ maxStack maxLocals instructions handlers attributes =>
    .code maxStack maxLocals instructions handlers (attributes.map meaning)
  | other nameIndex info => .other nameIndex info

def standard (codeIndex : UInt16) : AttributeForm → AttributeForm
  | code _ maxStack maxLocals instructions handlers attributes =>
    .code codeIndex maxStack maxLocals instructions handlers (attributes.map (standard codeIndex))
  | other nameIndex info => .other nameIndex info

/-- Code stands under the name of code and the rest does not, and what is counted fits its field. -/
inductive IsValid (pool : ConstantPool) : AttributeForm → Prop
  | code {nameIndex maxStack maxLocals : UInt16} {instructions : Bytes} {handlers : List Handler}
      {attributes : List AttributeForm} :
      pool.bytes nameIndex = .ok codeName →
      (codeBody maxStack maxLocals instructions handlers (countedBytes bytes attributes)).length < 0x100000000 →
      handlers.length < 0x10000 → attributes.length < 0x10000 → (∀ f ∈ attributes, IsValid pool f) →
      IsValid pool (.code nameIndex maxStack maxLocals instructions handlers attributes)
  | other {nameIndex : UInt16} {info name : Bytes} :
      pool.bytes nameIndex = .ok name → name ≠ codeName → info.length < 0x100000000 →
      IsValid pool (.other nameIndex info)

lemma bytes_code (nameIndex maxStack maxLocals : UInt16) (instructions : Bytes) (handlers : List Handler)
    (attributes : List AttributeForm) :
    (AttributeForm.code nameIndex maxStack maxLocals instructions handlers attributes).bytes =
      attributeBytes nameIndex (codeBody maxStack maxLocals instructions handlers (countedBytes bytes attributes)) := by
  rw [bytes, countedBytes]

end AttributeForm

def Attribute.form (codeIndex : UInt16) : Attribute → AttributeForm
  | .code maxStack maxLocals instructions handlers attributes =>
    .code codeIndex maxStack maxLocals instructions handlers (attributes.map (form codeIndex))
  | .other nameIndex info => .other nameIndex info

/-! ## Members -/

structure MemberForm where
  flags : UInt16
  nameIndex : UInt16
  descriptorIndex : UInt16
  attributes : List AttributeForm

namespace MemberForm

def bytes (f : MemberForm) : Bytes :=
  bigEndian 2 f.flags.toNat ++ bigEndian 2 f.nameIndex.toNat ++ bigEndian 2 f.descriptorIndex.toNat ++
    countedBytes AttributeForm.bytes f.attributes

def meaning (f : MemberForm) : Member where
  flags := .ofBits f.flags
  nameIndex := f.nameIndex
  descriptorIndex := f.descriptorIndex
  attributes := f.attributes.map AttributeForm.meaning

def standard (codeIndex : UInt16) (f : MemberForm) : MemberForm :=
  { f with flags := f.flags &&& 0x0fff, attributes := f.attributes.map (.standard codeIndex) }

structure IsValid (pool : ConstantPool) (f : MemberForm) : Prop where
  length_attributes : f.attributes.length < 0x10000
  attributes : ∀ a ∈ f.attributes, a.IsValid pool

end MemberForm

def Member.form (codeIndex : UInt16) (m : Member) : MemberForm where
  flags := m.flags.bits
  nameIndex := m.nameIndex
  descriptorIndex := m.descriptorIndex
  attributes := m.attributes.map (Attribute.form codeIndex)

/-! ## Classes -/

structure ClassForm where
  minorVersion : UInt16
  majorVersion : UInt16
  poolCount : UInt16
  constants : List Constant
  flags : UInt16
  thisClass : UInt16
  superClass : UInt16
  interfaces : List UInt16
  fields : List MemberForm
  methods : List MemberForm
  attributes : List AttributeForm

namespace ClassForm

def pool (f : ClassForm) : ConstantPool := .ofConstants f.constants

def bytes (f : ClassForm) : Bytes :=
  bigEndian 4 0xcafebabe ++ bigEndian 2 f.minorVersion.toNat ++ bigEndian 2 f.majorVersion.toNat ++
    bigEndian 2 f.poolCount.toNat ++ f.constants.flatMap Constant.written ++
    bigEndian 2 f.flags.toNat ++ bigEndian 2 f.thisClass.toNat ++ bigEndian 2 f.superClass.toNat ++
    countedBytes (fun i : UInt16 => bigEndian 2 i.toNat) f.interfaces ++
    countedBytes MemberForm.bytes f.fields ++ countedBytes MemberForm.bytes f.methods ++
    countedBytes AttributeForm.bytes f.attributes

def meaning (f : ClassForm) : ClassFile where
  minorVersion := f.minorVersion
  majorVersion := f.majorVersion
  pool := f.pool
  flags := .ofBits f.flags
  thisClass := f.thisClass
  superClass := f.superClass
  interfaces := f.interfaces
  fields := f.fields.map MemberForm.meaning
  methods := f.methods.map MemberForm.meaning
  attributes := f.attributes.map AttributeForm.meaning

def standard (codeIndex : UInt16) (f : ClassForm) : ClassForm :=
  { f with
    poolCount := .ofNat f.pool.count
    flags := f.flags &&& 0x0fff
    fields := f.fields.map (.standard codeIndex)
    methods := f.methods.map (.standard codeIndex)
    attributes := f.attributes.map (.standard codeIndex) }

structure IsValid (f : ClassForm) : Prop where
  minorVersion : f.minorVersion = 0
  majorVersion : f.majorVersion = 49 ∨ f.majorVersion = 50
  fill : Constant.Fill f.constants (f.poolCount.toNat - 1)
  constants : ∀ c ∈ f.constants, c.Fits
  length_interfaces : f.interfaces.length < 0x10000
  length_fields : f.fields.length < 0x10000
  fields : ∀ m ∈ f.fields, m.IsValid f.pool
  length_methods : f.methods.length < 0x10000
  methods : ∀ m ∈ f.methods, m.IsValid f.pool
  length_attributes : f.attributes.length < 0x10000
  attributes : ∀ a ∈ f.attributes, a.IsValid f.pool

end ClassForm

namespace ClassFile

def form (codeIndex : UInt16) (cf : ClassFile) : ClassForm where
  minorVersion := cf.minorVersion
  majorVersion := cf.majorVersion
  poolCount := .ofNat cf.pool.count
  constants := cf.pool.constants
  flags := cf.flags.bits
  thisClass := cf.thisClass
  superClass := cf.superClass
  interfaces := cf.interfaces
  fields := cf.fields.map (Member.form codeIndex)
  methods := cf.methods.map (Member.form codeIndex)
  attributes := cf.attributes.map (Attribute.form codeIndex)

def serialise (codeIndex : UInt16) (cf : ClassFile) : Bytes := (cf.form codeIndex).bytes

structure IsWritable (codeIndex : UInt16) (cf : ClassFile) : Prop where
  minorVersion : cf.minorVersion = 0
  majorVersion : cf.majorVersion = 49 ∨ cf.majorVersion = 50
  pool : cf.pool.IsLaidOut
  count : cf.pool.count < 0x10000
  constants : ∀ c ∈ cf.pool.constants, c.Fits
  flags : cf.flags.bits ≤ 0x0fff
  length_interfaces : cf.interfaces.length < 0x10000
  length_fields : cf.fields.length < 0x10000
  fields : ∀ m ∈ cf.fields, m.flags.bits ≤ 0x0fff ∧ (m.form codeIndex).IsValid cf.pool
  length_methods : cf.methods.length < 0x10000
  methods : ∀ m ∈ cf.methods, m.flags.bits ≤ 0x0fff ∧ (m.form codeIndex).IsValid cf.pool
  length_attributes : cf.attributes.length < 0x10000
  attributes : ∀ a ∈ cf.attributes, (a.form codeIndex).IsValid cf.pool

end ClassFile

/-! ## Pools -/

namespace ConstantPool

variable {p : ConstantPool}

lemma filterMap_entries (cs : List Constant) : (cs.flatMap Constant.entries).filterMap id = cs := by
  induction cs with
  | nil => rfl
  | cons c cs ih =>
    have hc : c.entries.filterMap id = [c] := by
      rw [Constant.entries]
      split <;> rfl
    rw [flatMap_cons, filterMap_append, ih, hc, singleton_append]

@[simp] lemma constants_ofConstants (cs : List Constant) : (ofConstants cs).constants = cs :=
  filterMap_entries cs

lemma count_ofConstants (cs : List Constant) : (ofConstants cs).count = (cs.flatMap Constant.entries).length + 1 := by
  simp [count, ofConstants]

/-- Of these entries, which begin with a constant or are none, those name nothing that follow a wide constant. -/
def AreLaidOut (l : List (Option Constant)) : Prop :=
  l[0]? ≠ some none ∧ ∀ i, l[i + 1]? = some none ↔ ∃ c, l[i]? = some (some c) ∧ c.isWide

lemma isLaidOut_iff : p.IsLaidOut ↔ ∃ l, p.entries = (none :: l).toArray ∧ AreLaidOut l := by
  obtain ⟨⟨l⟩⟩ := p
  cases l with
  | nil => simp [IsLaidOut]
  | cons c l =>
    simp only [IsLaidOut, List.getElem?_toArray]
    constructor
    · rintro ⟨h0, h⟩
      obtain rfl : c = none := by simpa using h0
      refine ⟨l, rfl, fun hl => ?_, fun i => h (i + 1)⟩
      obtain ⟨_, ⟨⟩, -⟩ := (h 0).1 hl
    · rintro ⟨_, heq, hl, h⟩
      cases heq
      refine ⟨rfl, fun i => ?_⟩
      cases i with
      | zero => simpa using hl
      | succ i => exact h i

lemma areLaidOut_entries (cs : List Constant) : AreLaidOut (cs.flatMap Constant.entries) := by
  induction cs with
  | nil => simp [AreLaidOut]
  | cons c cs ih =>
    obtain ⟨h0, h⟩ := ih
    rw [flatMap_cons, Constant.entries]
    split
    next hc =>
      refine ⟨by simp, fun i => ?_⟩
      match i with
      | 0 => simp [hc]
      | 1 => simpa using h0
      | i + 2 => exact h i
    next hc =>
      refine ⟨by simp, fun i => ?_⟩
      match i with
      | 0 => simpa [hc] using h0
      | i + 1 => exact h i

lemma AreLaidOut.flatMap_entries : ∀ {l : List (Option Constant)}, AreLaidOut l →
    (l.filterMap id).flatMap Constant.entries = l
  | [], _ => rfl
  | none :: _, h => (h.1 rfl).elim
  | [some c], h => by
    have hc : c.isWide = false := Bool.eq_false_iff.2 fun hc => absurd ((h.2 0).2 ⟨c, rfl, hc⟩) (by simp)
    simp [Constant.entries, hc]
  | some c :: some d :: l, h => by
    have hc : c.isWide = false := Bool.eq_false_iff.2 fun hc => absurd ((h.2 0).2 ⟨c, rfl, hc⟩) (by simp)
    have hrest : AreLaidOut (some d :: l) := ⟨by simp, fun i => h.2 (i + 1)⟩
    change c.entries ++ ((some d :: l).filterMap id).flatMap Constant.entries = _
    rw [hrest.flatMap_entries, Constant.entries, hc]; rfl
  | some c :: none :: l, h => by
    have hc : c.isWide := by obtain ⟨_, ⟨⟩, hc⟩ := (h.2 0).1 rfl; exact hc
    have hl : l[0]? ≠ some none := by
      intro hl
      obtain ⟨_, ⟨⟩, -⟩ := (h.2 1).1 hl
    have hrest : AreLaidOut l := ⟨hl, fun i => h.2 (i + 2)⟩
    change c.entries ++ (l.filterMap id).flatMap Constant.entries = _
    rw [hrest.flatMap_entries, Constant.entries, hc]; rfl

lemma isLaidOut_ofConstants (cs : List Constant) : (ofConstants cs).IsLaidOut :=
  isLaidOut_iff.2 ⟨_, rfl, areLaidOut_entries cs⟩

lemma IsLaidOut.ofConstants_constants (h : p.IsLaidOut) : ofConstants p.constants = p := by
  obtain ⟨entries⟩ := p
  obtain ⟨l, rfl, hl⟩ := isLaidOut_iff.1 h
  change ConstantPool.mk (none :: (l.filterMap id).flatMap Constant.entries).toArray = _
  rw [hl.flatMap_entries]

end ConstantPool

lemma Constant.fill_length_entries : ∀ cs : List Constant, Fill cs (cs.flatMap entries).length
  | [] => rfl
  | c :: cs => by
    have hpos : 0 < c.entries.length := by
      rw [entries]
      split <;> simp
    rw [Fill, flatMap_cons, length_append, Nat.add_sub_cancel_left]
    exact ⟨by omega, fill_length_entries cs⟩

/-! ## Meanings and standard forms -/

lemma AttributeForm.form_meaning (codeIndex : UInt16) : ∀ f : AttributeForm,
    f.meaning.form codeIndex = f.standard codeIndex
  | .code .. => by
    simp only [meaning, Attribute.form, standard, map_map]
    congr 1
    exact map_congr_left fun f hf => form_meaning codeIndex f
  | .other .. => by simp [meaning, Attribute.form, standard]

lemma Attribute.meaning_form (codeIndex : UInt16) : ∀ a : Attribute, (a.form codeIndex).meaning = a
  | .code .. => by
    simp only [form, AttributeForm.meaning, map_map]
    congr 1
    exact (map_congr_left fun a ha => meaning_form codeIndex a).trans (map_id _)
  | .other .. => by simp [form, AttributeForm.meaning]

lemma AccessFlags.ofBits_bits {flags : AccessFlags} (h : flags.bits ≤ 0x0fff) : ofBits flags.bits = flags := by
  have hlt : flags.bits.toNat < 2 ^ 12 := Nat.lt_succ_of_le (UInt16.le_iff_toNat_le.1 h)
  have hbits : flags.bits &&& 0x0fff = flags.bits := by
    rw [← UInt16.toNat_inj, UInt16.toNat_and, show (0x0fff : UInt16).toNat = 2 ^ 12 - 1 from rfl,
      Nat.and_two_pow_sub_one_eq_mod, Nat.mod_eq_of_lt hlt]
  rw [ofBits, defined, hbits]

lemma MemberForm.form_meaning (codeIndex : UInt16) (f : MemberForm) :
    f.meaning.form codeIndex = f.standard codeIndex := by
  simp only [meaning, Member.form, standard, map_map, AccessFlags.ofBits, AccessFlags.defined,
    MemberForm.mk.injEq, true_and]
  exact map_congr_left fun a _ => a.form_meaning codeIndex

lemma Member.meaning_form (codeIndex : UInt16) {m : Member} (h : m.flags.bits ≤ 0x0fff) :
    (m.form codeIndex).meaning = m := by
  have hattributes : m.attributes.map (AttributeForm.meaning ∘ Attribute.form codeIndex) = m.attributes :=
    (map_congr_left fun a _ => a.meaning_form codeIndex).trans (map_id _)
  simp [MemberForm.meaning, form, AccessFlags.ofBits_bits h, hattributes]

lemma ClassForm.form_meaning (codeIndex : UInt16) (f : ClassForm) :
    f.meaning.form codeIndex = f.standard codeIndex := by
  have hmembers (ms : List MemberForm) :
      ms.map (Member.form codeIndex ∘ MemberForm.meaning) = ms.map (.standard codeIndex) :=
    map_congr_left fun m _ => m.form_meaning codeIndex
  have hattributes : f.attributes.map (Attribute.form codeIndex ∘ AttributeForm.meaning) =
      f.attributes.map (.standard codeIndex) :=
    map_congr_left fun a _ => a.form_meaning codeIndex
  simp [meaning, ClassFile.form, standard, hmembers, hattributes, pool, AccessFlags.ofBits, AccessFlags.defined]

lemma ClassFile.IsWritable.meaning_form (h : cf.IsWritable codeIndex) : (cf.form codeIndex).meaning = cf := by
  have hmembers {ms : List Member} (hms : ∀ m ∈ ms, m.flags.bits ≤ 0x0fff ∧ (m.form codeIndex).IsValid cf.pool) :
      ms.map (MemberForm.meaning ∘ Member.form codeIndex) = ms :=
    (map_congr_left fun m hm => Member.meaning_form codeIndex (hms m hm).1).trans (map_id _)
  have hattributes : cf.attributes.map (AttributeForm.meaning ∘ Attribute.form codeIndex) = cf.attributes :=
    (map_congr_left fun a _ => a.meaning_form codeIndex).trans (map_id _)
  simp [form, ClassForm.meaning, ClassForm.pool, hmembers h.fields, hmembers h.methods, hattributes,
    h.pool.ofConstants_constants, AccessFlags.ofBits_bits h.flags]

lemma ClassFile.IsWritable.isValid_form (h : cf.IsWritable codeIndex) : (cf.form codeIndex).IsValid := by
  have hpool : (cf.form codeIndex).pool = cf.pool := h.pool.ofConstants_constants
  have hcount : cf.pool.count = (cf.pool.constants.flatMap Constant.entries).length + 1 :=
    (congrArg ConstantPool.count hpool).symm.trans (ConstantPool.count_ofConstants _)
  refine ⟨h.minorVersion, h.majorVersion, ?_, h.constants, h.length_interfaces, ?_, ?_, ?_, ?_, ?_, ?_⟩
  · have hfield : (UInt16.ofNat cf.pool.count).toNat = cf.pool.count := by
      rw [UInt16.toNat_ofNat', Nat.mod_eq_of_lt h.count]
    simp only [form, hfield]
    rw [hcount]; exact Constant.fill_length_entries _
  · simpa only [form, length_map] using h.length_fields
  · rw [hpool]; exact forall_mem_map.2 fun m hm => (h.fields m hm).2
  · simpa only [form, length_map] using h.length_methods
  · rw [hpool]; exact forall_mem_map.2 fun m hm => (h.methods m hm).2
  · simpa only [form, length_map] using h.length_attributes
  · rw [hpool]; exact forall_mem_map.2 h.attributes

end JvmGraph
