import JvmGraph.Abi.FieldLayout
import JvmGraph.Proofs.Descriptor
import JvmGraph.Proofs.Program.Change

/-!
# Where fields lie

Placing the fields of a class is read off the program that it leaves behind: one field after the other, each at the next
multiple of its size. So fields do not overlap, and they fill the room from the first to the end of the last.
-/

namespace JvmGraph

open List

lemma le_align (offset size : Nat) : offset ≤ align offset size := by
  have hpos : 0 < max size 1 := Nat.lt_of_lt_of_le Nat.zero_lt_one (by omega)
  have hdiv := Nat.div_add_mod (offset + max size 1 - 1) (max size 1)
  have hmod := Nat.mod_lt (offset + max size 1 - 1) hpos
  rw [Nat.mul_comm] at hdiv
  change offset ≤ (offset + max size 1 - 1) / max size 1 * max size 1
  omega

lemma dvd_align (offset : Nat) {size : Nat} (h : 0 < size) : size ∣ align offset size := by
  have hmax : max size 1 = size := Nat.max_eq_left h
  unfold align
  rw [hmax]
  exact Nat.dvd_mul_left _ _

def Field.size (f : Field) : Nat := f.type.mode.size

lemma FieldType.IsDescribed.size_pos {t : FieldType} (h : t.IsDescribed) : 0 < t.mode.size := by
  cases t with
  | base k => cases k <;> first | exact absurd rfl h.2 | decide
  | object name => exact Nat.succ_pos _
  | array element => exact Nat.succ_pos _

namespace Program

variable {p p' : Program} {start stop : Nat} {members : List EntityId} {e e' : EntityId} {f f' : Field} {c : ClassId}

lemma fieldAt?_modifyField (p : Program) (x : EntityId) (g : Field → Field) (h : p.fieldAt? e = some f) :
    (p.modifyField e g).fieldAt? x = if x = e then some (g f) else p.fieldAt? x := by
  have hkind : (p.entityAt e).kind = .field f := by
    unfold fieldAt? Entity.field? at h
    split at h
    · rename_i f' hk
      cases h
      exact hk
    · cases h
  have hhas : p.HasEntity e := by
    refine Classical.byContradiction fun hnot => ?_
    rw [fieldAt?, entityAt_of_not p e hnot] at h; cases h
  rw [fieldAt?, modifyField, entityAt_modifyEntity]
  by_cases hx : x = e
  · rw [if_pos ⟨hx, hhas⟩, if_pos hx, hkind]; rfl
  · rw [if_neg fun h => hx h.1, if_neg hx]; rfl

/-- The instance fields among `members` follow each other from `start` to `stop`, each at the next multiple of its size.
Static fields have no place. -/
inductive Placed (p : Program) : (start : Nat) → (members : List EntityId) → (stop : Nat) → Prop
  | nil (start : Nat) : Placed p start [] start
  | other {start stop : Nat} {e : EntityId} {rest : List EntityId} (hf : p.fieldAt? e = none)
      (h : Placed p start rest stop) : Placed p start (e :: rest) stop
  | static {start stop : Nat} {e : EntityId} {rest : List EntityId} {f : Field} (hf : p.fieldAt? e = some f)
      (hs : f.isStatic = true) (ho : f.offset? = none) (h : Placed p start rest stop) : Placed p start (e :: rest) stop
  | inObject {start stop : Nat} {e : EntityId} {rest : List EntityId} {f : Field} (hf : p.fieldAt? e = some f)
      (hs : f.isStatic = false) (hpos : 0 < f.size) (ho : f.offset? = some (align start f.size))
      (h : Placed p (align start f.size + f.size) rest stop) : Placed p start (e :: rest) stop

/-- The fields of `c` lie behind those of its superclass, and its size is that of all of them, rounded up to words. -/
def Fielded (p : Program) (c : ClassId) : Prop :=
  ∃ stop, p.Placed (p.fieldStart c) (p.classAt c).members stop ∧ (p.classAt c).size = align stop Abi.pointerSize

namespace Placed

section

variable (h : p.Placed start members stop)

include h

lemma congr (hf : ∀ e ∈ members, p'.fieldAt? e = p.fieldAt? e) : p'.Placed start members stop := by
  induction h with
  | nil start => exact .nil start
  | other hn _ ih =>
    obtain ⟨hfirst, hrest⟩ := forall_mem_cons.1 hf; exact .other (hfirst.trans hn) (ih hrest)
  | static hsome hs ho _ ih =>
    obtain ⟨hfirst, hrest⟩ := forall_mem_cons.1 hf
    exact .static (hfirst.trans hsome) hs ho (ih hrest)
  | inObject hsome hs hpos ho _ ih =>
    obtain ⟨hfirst, hrest⟩ := forall_mem_cons.1 hf
    exact .inObject (hfirst.trans hsome) hs hpos ho (ih hrest)

lemma le : start ≤ stop := by
  induction h with
  | nil => exact Nat.le_refl _
  | other _ _ ih => exact ih
  | static _ _ _ _ ih => exact ih
  | @inObject start _ _ _ f _ _ _ _ _ ih => exact Nat.le_trans (le_align start f.size) (by omega)

section

variable (he : e ∈ members) (hf : p.fieldAt? e = some f)

include he hf

lemma offset?_static (hs : f.isStatic = true) : f.offset? = none := by
  induction h with
  | nil => cases he
  | other hn _ ih =>
    rcases mem_cons.1 he with rfl | he
    · cases hn.symm.trans hf
    · exact ih he
  | static hsome _ ho _ ih =>
    rcases mem_cons.1 he with rfl | he
    · cases hsome.symm.trans hf
      exact ho
    · exact ih he
  | inObject hsome hs' _ _ _ ih =>
    rcases mem_cons.1 he with rfl | he
    · cases hsome.symm.trans hf
      cases hs.symm.trans hs'
    · exact ih he

/-- Every instance field lies at a multiple of its size between the ends. -/
lemma exists_offset (hs : f.isStatic = false) :
    ∃ offset, f.offset? = some offset ∧ f.size ∣ offset ∧ start ≤ offset ∧ offset + f.size ≤ stop := by
  induction h with
  | nil => cases he
  | other hn _ ih =>
    rcases mem_cons.1 he with rfl | he
    · cases hn.symm.trans hf
    · exact ih he
  | static hsome hs' _ _ ih =>
    rcases mem_cons.1 he with rfl | he
    · cases hsome.symm.trans hf
      cases hs.symm.trans hs'
    · exact ih he
  | @inObject start _ _ _ f' hsome _ hpos ho hrest ih =>
    rcases mem_cons.1 he with rfl | he
    · cases hsome.symm.trans hf
      exact ⟨_, ho, dvd_align start hpos, le_align start f.size, hrest.le⟩
    · obtain ⟨offset, hoffset, hdvd, hle, hend⟩ := ih he
      have hstart := le_align start f'.size; exact ⟨offset, hoffset, hdvd, by omega, hend⟩

lemma start_le {o : Nat} (ho : f.offset? = some o) : start ≤ o := by
  cases hs : f.isStatic with
  | true => cases (h.offset?_static he hf hs).symm.trans ho
  | false =>
    obtain ⟨offset, hoffset, -, hle, -⟩ := h.exists_offset he hf hs
    cases hoffset.symm.trans ho
    exact hle

end

/-- Of two fields that have places, one ends before the other begins. -/
lemma disjoint (he : e ∈ members) (he' : e' ∈ members) (hne : e ≠ e')
    (hf : p.fieldAt? e = some f) (hf' : p.fieldAt? e' = some f') {o o' : Nat} (ho : f.offset? = some o)
    (ho' : f'.offset? = some o') : o + f.size ≤ o' ∨ o' + f'.size ≤ o := by
  induction h with
  | nil => cases he
  | other hn _ ih =>
    rcases mem_cons.1 he with rfl | hrest
    · cases hn.symm.trans hf
    · rcases mem_cons.1 he' with rfl | hrest'
      · cases hn.symm.trans hf'
      · exact ih hrest hrest'
  | static hsome _ hnone _ ih =>
    rcases mem_cons.1 he with rfl | hrest
    · cases hsome.symm.trans hf
      cases hnone.symm.trans ho
    · rcases mem_cons.1 he' with rfl | hrest'
      · cases hsome.symm.trans hf'
        cases hnone.symm.trans ho'
      · exact ih hrest hrest'
  | inObject hsome _ _ hat hplaced ih =>
    -- what follows a field begins where the field ends
    rcases mem_cons.1 he with rfl | hrest
    · cases hsome.symm.trans hf
      cases hat.symm.trans ho
      rcases mem_cons.1 he' with rfl | hrest'
      · exact absurd rfl hne
      · exact .inl (hplaced.start_le hrest' hf' ho')
    · rcases mem_cons.1 he' with rfl | hrest'
      · cases hsome.symm.trans hf'
        cases hat.symm.trans ho'
        exact .inr (hplaced.start_le hrest hf ho)
      · exact ih hrest hrest'

end

end Placed

lemma fieldStart_congr (hsuper : (p'.classAt c).superclass? = (p.classAt c).superclass?)
    (hs : ∀ s, (p.classAt c).superclass? = some s → (p'.classAt s).size = (p.classAt s).size) :
    p'.fieldStart c = p.fieldStart c := by
  rw [fieldStart, fieldStart, hsuper]
  cases hparent : (p.classAt c).superclass? with
  | none => rfl
  | some s => exact hs s hparent

lemma Fielded.congr (h : p.Fielded c) (hstart : p'.fieldStart c = p.fieldStart c)
    (hmembers : (p'.classAt c).members = (p.classAt c).members)
    (hf : ∀ e ∈ (p.classAt c).members, p'.fieldAt? e = p.fieldAt? e)
    (hsize : (p'.classAt c).size = (p.classAt c).size) : p'.Fielded c := by
  obtain ⟨stop, hplaced, hstop⟩ := h
  exact ⟨stop, by rw [hstart, hmembers]; exact hplaced.congr hf, hsize.trans hstop⟩

end Program

end JvmGraph
