import JvmGraph.Linking.Members
import JvmGraph.Proofs.Arrays

/-!
# Programs after a change

What stands at a number of a program after a class or an entity was added or changed. Compiling a method
leaves notes with its class and a graph with the method; the rest of a class or an entity is its
declaration.
-/

namespace JvmGraph

lemma ClassId.ext {a b : ClassId} (h : a.index = b.index) : a = b := by
  cases a
  simp_all

lemma EntityId.ext {a b : EntityId} (h : a.index = b.index) : a = b := by
  cases a
  simp_all

namespace Program

variable (p : Program) (c d : ClassId) (e x : EntityId) {f : ClassInfo → ClassInfo}

/-! ## Classes -/

def HasClass : Prop := c.index < p.classes.size

def HasEntity : Prop := e.index < p.entities.size

instance : Decidable (p.HasClass c) := inferInstanceAs (Decidable (_ < _))

instance : Decidable (p.HasEntity e) := inferInstanceAs (Decidable (_ < _))

lemma classAt_of_not (h : ¬ p.HasClass c) : p.classAt c = { name := "" } := by
  simp only [HasClass, Nat.not_lt] at h
  simp [classAt, Array.getElem?_eq_none h]

lemma entityAt_of_not (h : ¬ p.HasEntity e) : p.entityAt e = .global "" .data .external none := by
  simp only [HasEntity, Nat.not_lt] at h
  simp [entityAt, Array.getElem?_eq_none h]

lemma classAt_modifyClass (f : ClassInfo → ClassInfo) :
    (p.modifyClass c f).classAt d = if d = c ∧ p.HasClass c then f (p.classAt c) else p.classAt d := by
  obtain ⟨c⟩ := c
  obtain ⟨d⟩ := d
  simp only [classAt, modifyClass, HasClass, Arrays.getD_setIfInBounds, ClassId.mk.injEq]

/-- What is left alone in one class is the same in all of them. -/
lemma modifyClass_congr {p : Program} {c d : ClassId} {β : Type} (v : ClassInfo → β)
    (h : v (f (p.classAt c)) = v (p.classAt c)) : v ((p.modifyClass c f).classAt d) = v (p.classAt d) := by
  rw [classAt_modifyClass]
  split
  · rename_i hd; rw [hd.1, h]
  · rfl

lemma classAt_modifyClass_self (h : p.HasClass c) : (p.modifyClass c f).classAt c = f (p.classAt c) := by
  simp [classAt_modifyClass, h]

lemma classAt_modifyClass_ne (h : d ≠ c) : (p.modifyClass c f).classAt d = p.classAt d := by
  simp [classAt_modifyClass, h]

@[simp] lemma entityAt_modifyClass (f : ClassInfo → ClassInfo) : (p.modifyClass c f).entityAt e = p.entityAt e := rfl

@[simp] lemma entities_modifyClass (f : ClassInfo → ClassInfo) : (p.modifyClass c f).entities = p.entities := rfl

@[simp] lemma size_modifyClass (f : ClassInfo → ClassInfo) : (p.modifyClass c f).classes.size = p.classes.size := by
  simp [modifyClass]

lemma classAt_newClass (name : String) :
    (p.newClass name).2.classAt d = if d.index = p.classes.size then { name } else p.classAt d := by
  simp only [classAt, newClass, Array.getD_eq_getD_getElem?, Array.getElem?_push]
  split <;> simp_all

@[simp] lemma size_newClass (name : String) : (p.newClass name).2.classes.size = p.classes.size + 1 := by
  simp [newClass]

/-! ## Entities -/

lemma entityAt_modifyEntity (f : Entity → Entity) : (p.modifyEntity e f).entityAt x =
      if x = e ∧ p.HasEntity e then f (p.entityAt e) else p.entityAt x := by
  obtain ⟨e⟩ := e
  obtain ⟨x⟩ := x
  simp only [entityAt, modifyEntity, HasEntity, Arrays.getD_setIfInBounds, EntityId.mk.injEq]

lemma modifyEntity_congr {p : Program} {e x : EntityId} {f : Entity → Entity} {β : Type} (v : Entity → β)
    (h : v (f (p.entityAt e)) = v (p.entityAt e)) : v ((p.modifyEntity e f).entityAt x) = v (p.entityAt x) := by
  rw [entityAt_modifyEntity]
  split
  · rename_i hx; rw [hx.1, h]
  · rfl

lemma entityAt_modifyEntity_ne {f : Entity → Entity} (h : x ≠ e) :
    (p.modifyEntity e f).entityAt x = p.entityAt x := by
  simp [entityAt_modifyEntity, h]

@[simp] lemma size_modifyEntity (f : Entity → Entity) : (p.modifyEntity e f).entities.size = p.entities.size := by
  simp [modifyEntity]

section

variable (entity : Entity)

lemma entityAt_newEntity :
    (p.newEntity entity).2.entityAt x = if x.index = p.entities.size then entity else p.entityAt x := by
  simp only [entityAt, newEntity, Array.getD_eq_getD_getElem?, Array.getElem?_push]
  split <;> simp_all

lemma entityAt_newEntity_of_has {x : EntityId} (h : p.HasEntity x) :
    (p.newEntity entity).2.entityAt x = p.entityAt x := by
  have hx : x.index ≠ p.entities.size := Nat.ne_of_lt h
  simp [entityAt_newEntity, hx]

@[simp] lemma size_newEntity : (p.newEntity entity).2.entities.size = p.entities.size + 1 := by
  simp [newEntity]

@[simp] lemma classes_newEntity : (p.newEntity entity).2.classes = p.classes := rfl

end

/-! ## Methods -/

section

variable (f : Method → Method)

lemma methodAt?_modifyMethod :
    (p.modifyMethod e f).methodAt? x = if x = e then (p.methodAt? e).map f else p.methodAt? x := by
  simp only [methodAt?, modifyMethod, entityAt_modifyEntity]
  by_cases hx : x = e
  · subst hx
    by_cases hs : p.HasEntity x
    · simp only [hs, Entity.method?]
      cases hk : (p.entityAt x).kind <;> simp [hk]
    · simp [p.entityAt_of_not x hs, Entity.method?, Entity.global]
  · simp [hx]

@[simp] lemma size_modifyMethod : (p.modifyMethod e f).entities.size = p.entities.size := by
  simp [modifyMethod]

end

lemma entityAt_modifyMethod_ne {f : Method → Method} (h : x ≠ e) :
    (p.modifyMethod e f).entityAt x = p.entityAt x := p.entityAt_modifyEntity_ne e x h

@[simp] lemma size_modifyField (f : Field → Field) : (p.modifyField e f).entities.size = p.entities.size := by
  simp [modifyField]

lemma entityAt_modifyField_ne {f : Field → Field} (h : x ≠ e) :
    (p.modifyField e f).entityAt x = p.entityAt x := p.entityAt_modifyEntity_ne e x h

end Program

end JvmGraph
