import JvmGraph.Proofs.Compilation.Agreement
import JvmGraph.Proofs.Loading.Queue

/-!
# What a compilation delivers

When the queue is empty the graphs are lowered and the dispatch tables of extern classes are dropped. All that was known
of the classes and entities before is still known of them, and every entity that is new is shared by all.
-/

namespace JvmGraph

open Steps Load World List Program

/-! ## Dropping dispatch tables -/

/-- An entity that is left to those who define it. -/
def Entity.abandoned (x : Entity) : Entity := { x with initializer? := none, visibility := .external }

namespace Program

variable {p : Program} {c : ClassId} {e : EntityId}

lemma mem_classIds : c ∈ p.classIds ↔ p.HasClass c := by
  rw [classIds, mem_map]
  constructor
  · rintro ⟨i, hi, rfl⟩; exact mem_range.1 hi
  · exact fun h => ⟨c.index, mem_range.2 h, rfl⟩

lemma entityAt_abandon (p : Program) (v e : EntityId) :
    (p.modifyEntity v Entity.abandoned).entityAt e = if e = v then (p.entityAt e).abandoned else p.entityAt e := by
  rw [entityAt_modifyEntity]
  by_cases he : e = v
  · subst he
    by_cases hh : p.HasEntity e
    · rw [if_pos ⟨rfl, hh⟩, if_pos rfl]
    · rw [if_neg fun h => hh h.2, if_pos rfl, entityAt_of_not _ e hh]; rfl
  · rw [if_neg fun h => he h.1, if_neg he]

def dropVTable (p : Program) (c : ClassId) : Program :=
  match (p.classAt c).isExtern, (p.classAt c).vtable? with
  | true, some v => p.modifyEntity v Entity.abandoned
  | _, _ => p

lemma dropExternVTables_eq (p : Program) : p.dropExternVTables = p.classIds.foldl dropVTable p := rfl

lemma classes_dropVTable (p : Program) (c : ClassId) : (p.dropVTable c).classes = p.classes := by
  unfold dropVTable
  split <;> rfl

lemma entityAt_dropVTable (p : Program) (c : ClassId) (e : EntityId) : (p.dropVTable c).entityAt e =
    if (p.classAt c).isExtern = true ∧ (p.classAt c).vtable? = some e then (p.entityAt e).abandoned
    else p.entityAt e := by
  unfold dropVTable
  split
  · rename_i v hx hv
    rw [entityAt_abandon]
    by_cases he : e = v
    · rw [if_pos he, if_pos ⟨hx, hv.trans (congrArg some he.symm)⟩]
    · rw [if_neg he, if_neg fun h => he (Option.some.inj (h.2.symm.trans hv))]
  · rename_i hno; rw [if_neg fun h => hno e h.1 h.2]

open Classical in
lemma entityAt_dropVTables (cs : List ClassId) (p : Program) (e : EntityId) : (cs.foldl dropVTable p).entityAt e =
    if ∃ c ∈ cs, (p.classAt c).isExtern = true ∧ (p.classAt c).vtable? = some e then (p.entityAt e).abandoned
    else p.entityAt e := by
  induction cs generalizing p with
  | nil => simp
  | cons c rest ih =>
    rw [foldl_cons, ih, entityAt_dropVTable]
    simp only [classAt_of_classes (p.classes_dropVTable c)]
    by_cases hc : (p.classAt c).isExtern = true ∧ (p.classAt c).vtable? = some e
    · simp [hc, Entity.abandoned]
    · simp [hc]

open Classical in
lemma entityAt_dropExternVTables (p : Program) (e : EntityId) :
    p.dropExternVTables.entityAt e = if p.IsExternVTable e then (p.entityAt e).abandoned else p.entityAt e := by
  have hiff : (∃ c ∈ p.classIds, (p.classAt c).isExtern = true ∧ (p.classAt c).vtable? = some e) ↔
    p.IsExternVTable e := by
    constructor
    · rintro ⟨c, -, hc⟩; exact ⟨c, hc⟩
    · rintro ⟨c, hx, hv⟩
      refine ⟨c, mem_classIds.2 ?_, hx, hv⟩
      by_contra hc
      simp [classAt_of_not _ c hc] at hv
  rw [dropExternVTables_eq, entityAt_dropVTables]
  simp only [hiff]

end Program

/-! ## Delivery -/

namespace World

structure Delivers (w : World) (im : Image) (q : Program) : Prop where
  lowers : w.image.Lowers im
  program : q = im.program.dropExternVTables

namespace Delivers

variable {w : World} {im : Image} {q : Program} {c : ClassId} {e : EntityId} (h : Delivers w im q)

include h

lemma classes : q.classes = w.program.classes := by
  rw [h.program, (stripped_dropExternVTables _).classes, h.lowers.redrawn.classes]
  rfl

lemma classAt (c : ClassId) : q.classAt c = w.classAt c := classAt_of_classes h.classes c

lemma hasEntity_iff : q.HasEntity e ↔ im.program.HasEntity e := by
  rw [h.program, Program.HasEntity, Program.HasEntity, (stripped_dropExternVTables _).size]

lemma isExternVTable_iff : im.program.IsExternVTable e ↔ w.program.IsExternVTable e := by
  rw [Program.IsExternVTable]
  simp only [h.lowers.redrawn.classAt]
  rfl

lemma decl_eq (he : w.HasEntity e) (hx : ¬ w.program.IsExternVTable e) :
    (q.entityAt e).decl = (w.program.entityAt e).decl := by
  rw [h.program, entityAt_dropExternVTables, if_neg (h.isExternVTable_iff.not.2 hx)]
  exact h.lowers.redrawn.entity e he

lemma initializer?_extern (hx : w.program.IsExternVTable e) : (q.entityAt e).initializer? = none := by
  rw [h.program, entityAt_dropExternVTables, if_pos (h.isExternVTable_iff.2 hx)]
  rfl

lemma symbol_eq (he : w.HasEntity e) : (q.entityAt e).symbol = (w.program.entityAt e).symbol := by
  have hlower := Entity.symbol_of_face (Entity.face_of_decl (h.lowers.redrawn.entity e he))
  rw [h.program, entityAt_dropExternVTables]
  split
  · exact hlower
  · exact hlower

lemma owner?_eq (he : w.HasEntity e) : (q.entityAt e).owner? = (w.program.entityAt e).owner? := by
  have hlower := Entity.owner?_eq (h.lowers.redrawn.entity e he)
  rw [h.program, entityAt_dropExternVTables]
  split
  · exact hlower
  · exact hlower

lemma graph_isSome (e : EntityId) : (q.graphAt? e).isSome = (w.program.graphAt? e).isSome := by
  have hmethod : q.methodAt? e = im.program.methodAt? e := by
    rw [h.program, (stripped_dropExternVTables _).method]
  have hgraph : q.graphAt? e = im.program.graphAt? e := congrArg (·.bind Method.graph?) hmethod
  rw [hgraph, h.lowers.graph]
  rfl

lemma declAt?_eq (he : w.HasEntity e) : q.declAt? e = w.program.declAt? e := by
  rw [h.program]
  exact (h.lowers.redrawn.shipped (stripped_dropExternVTables _)).method e he

end Delivers

end World

lemma compile_delivers {source : ClassSource} {root : String} {flavour : Flavour} {result : Compilation}
    (h : compile source root flavour = .ok result) :
    ∃ w0 w im taken built, Opens source root result.root w0 ∧ Drains source w0 taken built w ∧
      Standing source w taken built ∧ w.queue = [] ∧ Delivers w im result.program := by
  obtain ⟨w, w', hload, hlower, hprogram⟩ := compile_ok h
  obtain ⟨w0, taken, built, hopens, hdrains, hstanding, hempty⟩ := loadFrom_drains hload
  exact ⟨w0, w, w'.image, taken, built, hopens, hdrains, hstanding, hempty, lowers_lowerWorld hlower, hprogram⟩

end JvmGraph
